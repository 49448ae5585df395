import NtfsDxe.Runlist.MappingPairs

/-! # Reading and writing through a runlist

`ntfs_rl_pread` and `ntfs_rl_pwrite` access the device once for each mapped run, and go on
with the next run however many bytes were transferred. The bytes are those of consecutive
positions exactly if only the last pass of the call transfers less than it asked for.
-/

namespace NtfsDxe

open List

/-- The results of the accesses to the device in a call, by their number and the bytes asked
for. After `EINTR` the device is asked again. -/
abbrev DeviceCounts := Nat → Nat → Except Errno Nat

/-- `ntfs_pread` and `ntfs_pwrite` refuse negative positions and sizes. -/
def deviceAccess (counts : DeviceCounts) (k : Nat) (pos len : Int) : Except Errno Nat :=
  if pos < 0 ∨ len < 0 then .error .einval else counts k len.toNat

/-- The places on the device of so many bytes; those of a hole have none. -/
def placesFrom (start : Option Int) (len : Nat) : List (Option Int) :=
  (range len).map fun i : Nat => start.map (· + (i : Int))

/-- A pass of the loop: where it starts on the device, the bytes asked for, and those that
were transferred. -/
structure Pass where
  start : Option Int
  asked : Nat
  got : Nat
  deriving DecidableEq

/-- The places of the bytes that the passes transfer, in the order of the buffer. -/
def passPlaces (done : List Pass) : List (Option Int) :=
  done.flatMap fun p => placesFrom p.start p.got

section

variable (vol : Volume) (access : Nat → Int → Int → Except Errno Nat)

/-- `n << vol->cluster_size_bits`. -/
def Volume.bytes (n : Int) : Int := s64 (n * vol.clusterSize)

/-- Seek in `rl` to the run containing `pos`, with the offset in it. -/
def rlSeek : List RunlistElement → Int → Int → List RunlistElement × Int
  | [], ofs, pos => ([], s64 (pos - ofs))
  | e :: rl, ofs, pos =>
    if e.length ≠ 0 ∧ s64 (ofs + vol.bytes e.length) ≤ pos then
      rlSeek rl (s64 (ofs + vol.bytes e.length)) pos
    else (e :: rl, s64 (pos - ofs))

/-- The loop of both functions: its passes, and the error that ends it. -/
def rlLoop : List RunlistElement → Nat → Int → Nat → List Pass × Option Failure
  | [], _, _, count => ([], if count = 0 then none else some .outOfBounds)
  | e :: rl, k, ofs, count =>
    if count = 0 then ([], none)
    else if e.length = 0 ∨ e.lcn < lcnHole then ([], some (.errno .eio))
    else
      let len := min (count : Int) (s64 (vol.bytes e.length - ofs))
      if e.lcn < 0 then
        -- With a negative length `b` leaves the buffer.
        if len < 0 then ([], some .outOfBounds)
        else (rlLoop rl k 0 (count - len.toNat)).map (⟨none, len.toNat, len.toNat⟩ :: ·) id
      else match access k (s64 (vol.bytes e.lcn + ofs)) len with
        | .error err => ([], some (.errno err))
        | .ok 0 => ([], some (.errno .eio))
        | .ok n => (rlLoop rl (k + 1) 0 (count - n)).map
            (⟨some (s64 (vol.bytes e.lcn + ofs)), len.toNat, n⟩ :: ·) id

/-- An error is returned only if nothing was transferred. -/
def rlTransfer (rl : List RunlistElement) (ofs pos : Int) (count : Nat) :
    Except Failure (List Pass) :=
  let (rl, ofs) := rlSeek vol rl ofs pos
  match rlLoop vol access rl 0 ofs count with
  | (done, none) => .ok done
  | (_, some .outOfBounds) => .error .outOfBounds
  | (done, some err) => if passPlaces done = [] then .error err else .ok done

/-- `ntfs_rl_pread`: the bytes that it stores in the buffer. -/
def rlPread (counts : DeviceCounts) (dev : Int → UInt8) (rl : List RunlistElement)
    (pos count : Nat) : Except Failure Buffer :=
  (rlTransfer vol (deviceAccess counts) rl 0 pos count).map
    fun done => (passPlaces done).map (·.elim 0 dev)

/-- Store the byte with this number of the buffer. -/
def storeByte (b : Nat → UInt8) (dev : Int → UInt8) (x : Option Int × Nat) : Int → UInt8 :=
  x.1.elim dev fun d => Function.update dev d (b x.2)

/-- If the volume is read-only, nothing is written and all counts as written. -/
def writeAccess (counts : DeviceCounts) (readOnly : Bool) : Nat → Int → Int → Except Errno Nat :=
  if readOnly then fun _ _ len => .ok len.toNat else deviceAccess counts

/-- `ntfs_rl_pwrite`: the contents of the device after it, and the number of bytes. -/
def rlPwrite (counts : DeviceCounts) (readOnly : Bool) (dev : Int → UInt8)
    (rl : List RunlistElement) (ofs pos count : Nat) (b : Nat → UInt8) :
    Except Failure ((Int → UInt8) × Nat) :=
  (rlTransfer vol (writeAccess counts readOnly) rl ofs pos count).map fun done =>
    (if readOnly then dev else (passPlaces done).zipIdx.foldl (storeByte b) dev,
      (passPlaces done).length)

end

/-! ## The bytes of an attribute -/

section

variable (vol : Volume)

def runStart (e : RunlistElement) : Option Int :=
  if e.lcn < 0 then none else some (e.lcn * vol.clusterSize)

def runSize (e : RunlistElement) : Nat := (e.length * (vol.clusterSize : Int)).toNat

def runPlaces (e : RunlistElement) : List (Option Int) :=
  placesFrom (runStart vol e) (runSize vol e)

/-- The places of all bytes of the attribute. -/
def places (rl : List RunlistElement) : List (Option Int) := rl.flatMap (runPlaces vol)

/-- The positions of all bytes behind `ofs`, and their places on the device, are `s64` values. -/
structure BytesFit (ofs : Int) (rl : List RunlistElement) : Prop where
  lengths : ∀ e ∈ rl, 0 ≤ e.length
  positions : ofs + (places vol rl).length < 2 ^ 63
  placed : ∀ d, some d ∈ places vol rl → d < 2 ^ 63

/-- Only the last pass transfers less than it asked for. -/
abbrev ShortAtEnd (done : List Pass) : Prop := ∀ p ∈ done.dropLast, p.got = p.asked

/-- The bytes read are those from `pos` on, whatever the device contains. -/
def ReadsConsecutive (counts : DeviceCounts) (rl : List RunlistElement) (pos count : Nat) : Prop :=
  ∀ dev bytes, rlPread vol counts dev rl pos count = .ok bytes →
    bytes <+: ((places vol rl).map (·.elim 0 dev)).drop pos

/-- Each byte is stored at its place, and nothing else is changed. -/
def StoresAtPlaces (counts : DeviceCounts) (readOnly : Bool) (rl : List RunlistElement)
    (ofs pos count : Nat) : Prop :=
  ∀ dev b dev' n, rlPwrite vol counts readOnly dev rl ofs pos count b = .ok (dev', n) →
    (∀ i d, i < n → (places vol rl)[pos - ofs + i]? = some (some d) → dev' d = b i) ∧
      ∀ d, (∀ i < n, (places vol rl)[pos - ofs + i]? ≠ some (some d)) → dev' d = dev d

end

lemma placesFrom_length : (placesFrom start len).length = len := by
  rw [placesFrom, length_map, length_range]

lemma placesFrom_getElem (hi : i < len) :
    (placesFrom start len)[i]? = some (start.map (· + (i : Int))) := by
  simp [placesFrom, hi]

lemma placesFrom_drop (start : Option Int) (ofs len : Nat) :
    (placesFrom start len).drop ofs = placesFrom (start.map (· + (ofs : Int))) (len - ofs) := by
  refine ext_getElem? fun i => ?_
  by_cases hi : ofs + i < len
  · simp [placesFrom, show i < len - ofs by omega, Function.comp_def, add_assoc]
  · simp [placesFrom, show ¬i < len - ofs by omega]

lemma placesFrom_take (start : Option Int) (h : n ≤ len) :
    placesFrom start n <+: placesFrom start len := by
  obtain ⟨m, rfl⟩ := Nat.exists_eq_add_of_le h
  rw [placesFrom, placesFrom, range_add, map_append]
  exact prefix_append _ _

lemma ShortAtEnd.tail (h : ShortAtEnd (p :: done)) : ShortAtEnd done := by
  cases done with
  | nil => exact fun p hp => by cases hp
  | cons p' done => exact fun x hx => h x (mem_cons_of_mem p hx)

section

variable {l : List (Option Int)}

lemma foldl_storeByte (h : some d ∉ l) : (l.zipIdx k).foldl (storeByte b) dev d = dev d := by
  induction l generalizing k dev with
  | nil => rfl
  | cons x l ih =>
    rw [mem_cons, not_or] at h
    rw [zipIdx_cons, foldl_cons, ih h.2]
    cases x with
    | none => rfl
    | some d' => exact Function.update_of_ne (fun heq => h.1 (congrArg some heq)) _ _

lemma foldl_storeByte_getElem (hnodup : (l.filterMap id).Nodup) (h : l[i]? = some (some d)) :
    (l.zipIdx k).foldl (storeByte b) dev d = b (k + i) := by
  induction l generalizing k i dev with
  | nil => cases h
  | cons x l ih =>
    rw [zipIdx_cons, foldl_cons]
    cases i with
    | zero =>
      cases h
      -- No later byte has the same place.
      rw [foldl_storeByte fun hmem => (nodup_cons.mp hnodup).1 (mem_filterMap.mpr ⟨_, hmem, rfl⟩)]
      exact Function.update_self _ _ _
    | succ i =>
      have hrest :=
        hnodup.sublist ((sublist_cons_self x l).filterMap id)
      rw [ih hrest h]
      congr 1
      omega

end

/-! ## The passes of a call -/

/-- What the loop does from an offset in the first run on: each pass transfers a part of what
is left of its run. -/
inductive Passes (vol : Volume) : List RunlistElement → Nat → Nat → List Pass → Prop
  | nil {rl : List RunlistElement} {ofs todo : Nat} : Passes vol rl ofs todo []
  | cons {rl : List RunlistElement} {ofs todo : Nat} {p : Pass} (hofs : ofs < runSize vol e)
      (hstart : p.start = (runStart vol e).map (· + (ofs : Int)))
      (hasked : p.asked = min todo (runSize vol e - ofs)) (hpos : 0 < p.got)
      (hle : p.got ≤ p.asked) (hhole : p.start = none → p.got = p.asked)
      (hrest : Passes vol rl 0 (todo - p.got) done) : Passes vol (e :: rl) ofs todo (p :: done)

section

variable {vol : Volume} {rl : List RunlistElement} {ofs todo : Nat} {p : Pass} {done : List Pass}

lemma Passes.todo_pos (h : Passes vol rl ofs todo (p :: done)) : 0 < todo := by
  cases h with
  | cons hofs hstart hasked hpos hle hhole hrest => omega

lemma Passes.got_pos (h : Passes vol rl ofs todo (p :: done)) : 0 < p.got := by
  cases h with
  | cons hofs hstart hasked hpos hle hhole hrest => exact hpos

/-- The place of a pass is one of its run. -/
lemma Passes.start_mem (h : Passes vol rl ofs todo (p :: done)) : p.start ∈ places vol rl := by
  cases h with
  | cons hofs hstart hasked hpos hle hhole hrest =>
    refine mem_flatMap.mpr ⟨_, mem_cons_self, mem_iff_getElem?.mpr ⟨ofs, ?_⟩⟩
    rw [runPlaces, placesFrom_getElem hofs, hstart]

lemma places_cons_drop (hofs : ofs < runSize vol e) :
    (places vol (e :: rl)).drop ofs =
      placesFrom ((runStart vol e).map (· + (ofs : Int))) (runSize vol e - ofs) ++
        places vol rl := by
  rw [places, flatMap_cons, drop_append_of_le_length (by rw [runPlaces, placesFrom_length]; omega),
    runPlaces, placesFrom_drop]
  rfl

lemma passPlaces_cons : passPlaces (p :: done) = placesFrom p.start p.got ++ passPlaces done := rfl

/-- Every byte comes from its own run. -/
lemma Passes.sublist (h : Passes vol rl ofs todo done) :
    passPlaces done <+ (places vol rl).drop ofs := by
  induction h with
  | nil => exact nil_sublist _
  | @cons e done rl ofs todo p hofs hstart hasked hpos hle hhole hrest ih =>
    rw [places_cons_drop hofs, passPlaces_cons, hstart]
    exact (placesFrom_take _ (by omega)).sublist.append ih

/-- If no byte has a place, all passes are in holes. -/
lemma Passes.holes (h : Passes vol rl ofs todo done)
    (hplaces : ∀ i < (passPlaces done).length, ∀ d,
      ((places vol rl).drop ofs)[i]? ≠ some (some d)) : ∀ p ∈ done, p.start = none := by
  induction h with
  | nil => exact fun p hp => by cases hp
  | @cons e done rl ofs todo p hofs hstart hasked hpos hle hhole hrest ih =>
    rw [places_cons_drop hofs, passPlaces_cons, length_append, placesFrom_length] at hplaces
    have hnone : p.start = none := by
      cases hrun : runStart vol e with
      | none => rw [hstart, hrun]; rfl
      | some d =>
        refine absurd ?_ (hplaces 0 (by omega) (d + ofs))
        rw [getElem?_append_left (by rw [placesFrom_length]; omega),
          placesFrom_getElem (by omega), hrun]
        simp
    refine forall_mem_cons.mpr ⟨hnone, ?_⟩
    cases done with
    | nil => exact fun p hp => by cases hp
    | cons p' done =>
      have hcomplete := hhole hnone
      have hmore := hrest.todo_pos
      refine ih fun i hi d => ?_
      have hat := hplaces (p.got + i) (by omega) d
      rw [getElem?_append_right (by rw [placesFrom_length]; omega), placesFrom_length,
        show p.got + i - (runSize vol e - ofs) = i by omega] at hat
      exact hat

lemma Passes.shortAtEnd_of_holes (h : Passes vol rl ofs todo done)
    (hholes : ∀ p ∈ done, p.start = none) : ShortAtEnd done := by
  have hcomplete : ∀ p ∈ done, p.got = p.asked := by
    induction h with
    | nil => exact fun p hp => by cases hp
    | cons hofs hstart hasked hpos hle hhole hrest ih =>
      obtain ⟨hnone, hrestHoles⟩ := forall_mem_cons.mp hholes
      exact forall_mem_cons.mpr ⟨hhole hnone, ih hrestHoles⟩
  exact fun p hp => hcomplete p (dropLast_subset _ hp)

lemma passPlaces_holes (hholes : ∀ p ∈ done, p.start = none) : ∀ x ∈ passPlaces done, x = none := by
  intro x hx
  obtain ⟨p, hp, hx⟩ := mem_flatMap.mp hx
  obtain ⟨i, _, rfl⟩ := mem_map.mp hx
  rw [hholes p hp]
  rfl

/-- If all passes but the last are complete, the places are consecutive. -/
lemma Passes.consecutive (h : Passes vol rl ofs todo done) (hshort : ShortAtEnd done) :
    passPlaces done <+: (places vol rl).drop ofs := by
  induction h with
  | nil => exact nil_prefix
  | @cons e done rl ofs todo p hofs hstart hasked hpos hle hhole hrest ih =>
    rw [places_cons_drop hofs, passPlaces_cons, hstart]
    cases done with
    | nil =>
      rw [passPlaces, flatMap_nil, append_nil]
      exact (placesFrom_take _ (by omega)).trans (prefix_append _ _)
    | cons p' done =>
      have hcomplete := hshort p mem_cons_self
      have hmore := hrest.todo_pos
      rw [show p.got = runSize vol e - ofs by omega]
      exact (prefix_append_right_inj _).mpr (ih hshort.tail)

/-- If the places are consecutive and no byte has the place of another one, all passes but the
last are complete. -/
lemma Passes.shortAtEnd (h : Passes vol rl ofs todo done)
    (hdistinct : ((places vol rl).filterMap id).Nodup)
    (hinitial : passPlaces done <+: (places vol rl).drop ofs) : ShortAtEnd done := by
  induction h with
  | nil => exact fun p hp => by cases hp
  | @cons e done rl ofs todo p hofs hstart hasked hpos hle hhole hrest ih =>
    cases done with
    | nil => exact fun p hp => by cases hp
    | cons p' done =>
      rw [places, flatMap_cons, filterMap_append] at hdistinct
      obtain ⟨_, hdistinct', hdisjoint⟩ := nodup_append.mp hdistinct
      rw [places_cons_drop hofs, passPlaces_cons, hstart] at hinitial
      have hcomplete : p.got = p.asked := by
        by_contra hne
        have hfirst : (passPlaces (p' :: done))[0]? = some p'.start := by
          rw [passPlaces_cons,
            getElem?_append_left (by rw [placesFrom_length]; exact hrest.got_pos),
            placesFrom_getElem hrest.got_pos]
          simp
        -- The next byte of the buffer is the first one of a later run.
        have hnext : p'.start = (runStart vol e).map (· + ((ofs + p.got : Nat) : Int)) := by
          have hlen : p.got <
              (placesFrom ((runStart vol e).map (· + (ofs : Int))) p.got ++
                passPlaces (p' :: done)).length := by
            have hpos' := hrest.got_pos
            rw [length_append, passPlaces_cons, length_append, placesFrom_length, placesFrom_length]
            omega
          have hat := prefix_iff_getElem?.mp hinitial p.got hlen
          rw [← getElem?_eq_getElem hlen, getElem?_append_left (by rw [placesFrom_length]; omega),
            placesFrom_getElem (by omega), getElem?_append_right (by rw [placesFrom_length]),
            placesFrom_length, Nat.sub_self, hfirst, Option.map_map] at hat
          rw [← Option.some.inj hat]
          congr
          funext d
          dsimp only [Function.comp_apply]
          omega
        cases hrun : runStart vol e with
        | none =>
          rw [hrun] at hstart
          exact hne (hhole hstart)
        | some d =>
          rw [hrun] at hnext
          have hlater : d + ((ofs + p.got : Nat) : Int) ∈ (places vol rl).filterMap id :=
            mem_filterMap.mpr ⟨_, hrest.start_mem, hnext⟩
          refine hdisjoint _ (mem_filterMap.mpr ⟨_, ?_, rfl⟩) _ hlater rfl
          refine mem_iff_getElem?.mpr ⟨ofs + p.got, ?_⟩
          rw [runPlaces, placesFrom_getElem (by omega), hrun]
          rfl
      have hmore := hrest.todo_pos
      rw [show p.got = runSize vol e - ofs by omega] at hinitial
      have hrest' := ih hdistinct' ((prefix_append_right_inj _).mp hinitial)
      refine fun x hx => ?_
      rcases mem_cons.mp hx with rfl | hx
      · exact hcomplete
      · exact hrest' x hx

end

/-! ## The loop -/

section

variable {vol : Volume} {rl : List RunlistElement} {access : Nat → Int → Int → Except Errno Nat}

/-- The numbers of a run are `s64` values. -/
lemma BytesFit.run (hfit : BytesFit vol ofs rl) (hofs : 0 ≤ ofs) (he : e ∈ rl)
    (hlength : e.length ≠ 0) :
    e.length * vol.clusterSize = runSize vol e ∧ 0 < runSize vol e ∧
      (runSize vol e : Int) < 2 ^ 63 ∧
      (0 ≤ e.lcn → e.lcn * vol.clusterSize + runSize vol e ≤ 2 ^ 63) := by
  have hcluster : 0 < vol.clusterSize := by
    rw [vol.clusterSize_eq]
    exact Nat.two_pow_pos _
  have hpos : 0 < e.length * (vol.clusterSize : Int) :=
    Int.mul_pos (lt_of_le_of_ne (hfit.lengths e he) hlength.symm) (Int.natCast_pos.mpr hcluster)
  have hsize : e.length * vol.clusterSize = runSize vol e := (Int.toNat_of_nonneg hpos.le).symm
  have hlen : runSize vol e ≤ (places vol rl).length := by
    obtain ⟨before, after, rfl⟩ := append_of_mem he
    rw [places, flatMap_append, flatMap_cons, length_append, length_append, runPlaces,
      placesFrom_length]
    omega
  have hpositions := hfit.positions
  refine ⟨hsize, by omega, by omega, fun hlcn => ?_⟩
  have hplaced := hfit.placed (e.lcn * vol.clusterSize + (runSize vol e - 1 : Nat)) ?_
  · omega
  · refine mem_flatMap.mpr ⟨e, he, mem_iff_getElem?.mpr ⟨runSize vol e - 1, ?_⟩⟩
    rw [runPlaces, placesFrom_getElem (by omega), runStart, if_neg (by omega)]
    rfl

lemma BytesFit.tail (hfit : BytesFit vol ofs (e :: rl)) :
    BytesFit vol (ofs + runSize vol e) rl := by
  have hpositions := hfit.positions
  rw [places, flatMap_cons, length_append, runPlaces, placesFrom_length] at hpositions
  refine ⟨fun x hx => hfit.lengths x (mem_cons_of_mem e hx), ?_, fun d hd => ?_⟩
  · rw [places]
    omega
  · exact hfit.placed d (mem_append_right _ hd)

/-- The loop makes passes, from an offset inside the first run on. -/
lemma rlLoop_passes (haccess : ∀ k pos len n, access k pos len = .ok n → (n : Int) ≤ max len 0)
    (hfit : BytesFit vol base rl) (hbase : 0 ≤ base) (ofs : Nat)
    (hofs : ∀ e ∈ rl.head?, e.length ≠ 0 → ofs < runSize vol e) :
    Passes vol rl ofs todo (rlLoop vol access rl k ofs todo).1 := by
  induction rl generalizing k ofs todo base with
  | nil => exact .nil
  | cons e rl ih =>
    cases todo with
    | zero => exact .nil
    | succ todo =>
      rw [rlLoop, if_neg (Nat.succ_ne_zero todo)]
      by_cases hend : e.length = 0 ∨ e.lcn < lcnHole
      · rw [if_pos hend]
        exact .nil
      rw [if_neg hend]
      obtain ⟨hlength, hlcn⟩ := not_or.mp hend
      have hlt := hofs e rfl hlength
      obtain ⟨hsize, _, hbound, hplace⟩ := hfit.run hbase mem_cons_self hlength
      have hbytes : vol.bytes e.length = runSize vol e := by
        rw [Volume.bytes, hsize]
        exact s64_of_isS64 (isS64_iff.mpr (by omega))
      have hlen : min ((todo + 1 : Nat) : Int) (s64 (vol.bytes e.length - ofs)) =
          (min (todo + 1) (runSize vol e - ofs) : Nat) := by
        rw [hbytes, s64_of_isS64 (isS64_iff.mpr (by omega))]
        omega
      have hrest : ∀ k n, Passes vol rl 0 n (rlLoop vol access rl k 0 n).1 := fun k n =>
        ih hfit.tail (by omega) 0 fun x hx hx0 =>
          (hfit.tail.run (by omega) (mem_of_mem_head? hx) hx0).2.1
      dsimp only
      rw [hlen, Int.toNat_natCast]
      by_cases hhole : e.lcn < 0
      · have hstart : runStart vol e = none := if_pos hhole
        rw [if_pos hhole, if_neg (by omega)]
        exact .cons hlt (by rw [hstart]; rfl) rfl (by dsimp only; omega) le_rfl (fun _ => rfl)
          (hrest _ _)
      · have hstart : runStart vol e = some (e.lcn * vol.clusterSize) := if_neg hhole
        have hplace' := hplace (by omega)
        have hnonneg : 0 ≤ e.lcn * (vol.clusterSize : Int) :=
          Int.mul_nonneg (by omega) (Int.natCast_nonneg _)
        have hlcnBytes : vol.bytes e.lcn = e.lcn * vol.clusterSize :=
          s64_of_isS64 (isS64_iff.mpr (by omega))
        have hpos : s64 (vol.bytes e.lcn + ofs) = e.lcn * vol.clusterSize + ofs := by
          rw [hlcnBytes]
          exact s64_of_isS64 (isS64_iff.mpr (by omega))
        rw [if_neg hhole, hpos]
        split
        · exact .nil
        · exact .nil
        · next n hn haccess' =>
          have hle := haccess _ _ _ _ haccess'
          exact .cons hlt (by rw [hstart]; rfl) rfl (Nat.pos_of_ne_zero hn) (by dsimp only; omega)
            (fun h => by cases h) (hrest _ _)

/-- A call makes passes from the run that contains `pos` on. -/
lemma rlTransfer_passes (haccess : ∀ k pos len n, access k pos len = .ok n → (n : Int) ≤ max len 0)
    (hfit : BytesFit vol ofs rl) (hofs : 0 ≤ ofs) (hpos : ofs ≤ pos)
    (h : rlTransfer vol access rl ofs pos todo = .ok done) :
    ∃ rl' m, rl' <:+ rl ∧ (places vol rl).drop (pos - ofs).toNat = (places vol rl').drop m ∧
      Passes vol rl' m todo done := by
  have hdone : (rlLoop vol access (rlSeek vol rl ofs pos).1 0 (rlSeek vol rl ofs pos).2 todo).1 =
      done := by
    rw [rlTransfer] at h
    dsimp only at h
    split at h
    · next heq =>
      cases h
      rw [heq]
    · cases h
    · next heq =>
      split_ifs at h
      cases h
      rw [heq]
  subst hdone
  clear h
  induction rl generalizing ofs with
  | nil => exact ⟨[], 0, suffix_refl _, by simp [places], .nil⟩
  | cons e rl ih =>
    rw [rlSeek]
    by_cases hlength : e.length = 0
    · rw [if_neg (fun hseek => hseek.1 hlength)]
      refine ⟨e :: rl, _, suffix_refl _, rfl, ?_⟩
      rw [rlLoop, if_pos (Or.inl hlength : _ ∨ e.lcn < lcnHole)]
      split <;> exact .nil
    obtain ⟨hsize, _, hbound, _⟩ := hfit.run hofs mem_cons_self hlength
    have hpositions := hfit.tail.positions
    have hbytes : vol.bytes e.length = runSize vol e := by
      rw [Volume.bytes, hsize]
      exact s64_of_isS64 (isS64_iff.mpr (by omega))
    have hsum : s64 (ofs + vol.bytes e.length) = ofs + runSize vol e := by
      rw [hbytes]
      exact s64_of_isS64 (isS64_iff.mpr (by omega))
    rw [hsum]
    by_cases hseek : ofs + runSize vol e ≤ pos
    · rw [if_pos ⟨hlength, hseek⟩]
      obtain ⟨rl', m, hsuffix, hdrop, hpasses⟩ := ih hfit.tail (by omega) hseek
      refine ⟨rl', m, hsuffix.trans (suffix_cons e rl), ?_, hpasses⟩
      have hskip : (pos - ofs).toNat =
          (runPlaces vol e).length + (pos - (ofs + runSize vol e)).toNat := by
        rw [runPlaces, placesFrom_length]
        omega
      rw [← hdrop, places, flatMap_cons, hskip, drop_length_add_append]
      rfl
    · rw [if_neg (fun h => hseek h.2), s64_of_isS64 (isS64_iff.mpr (by omega)),
        ← Int.toNat_of_nonneg (Int.sub_nonneg_of_le hpos)]
      refine ⟨e :: rl, _, suffix_refl _, rfl, rlLoop_passes haccess hfit hofs _ fun x hx _ => ?_⟩
      cases hx
      omega

end

/-! ## Reading and writing -/

lemma distinct_suffix (hdistinct : ((places vol rl).filterMap id).Nodup) (hsuffix : rl' <:+ rl) :
    ((places vol rl').filterMap id).Nodup := by
  obtain ⟨before, rfl⟩ := hsuffix
  rw [places, flatMap_append] at hdistinct
  exact hdistinct.sublist ((sublist_append_right _ _).filterMap id)

/-- The bytes of a buffer are stored at these places, and nothing else is changed. -/
def StoresOnly (n : Nat) (E : List (Option Int)) (dev : Int → UInt8) (b : Nat → UInt8)
    (dev' : Int → UInt8) : Prop :=
  (∀ i d, i < n → E[i]? = some (some d) → dev' d = b i) ∧
    ∀ d, (∀ i < n, E[i]? ≠ some (some d)) → dev' d = dev d

lemma storesOnly_of_prefix {l E : List (Option Int)} (hnodup : (l.filterMap id).Nodup)
    (h : l <+: E) (dev : Int → UInt8) (b : Nat → UInt8) :
    StoresOnly l.length E dev b (l.zipIdx.foldl (storeByte b) dev) := by
  have hat : ∀ i < l.length, E[i]? = l[i]? := by
    intro i hi
    rw [prefix_iff_getElem?.mp h i hi, getElem?_eq_getElem hi]
  constructor
  · intro i d hi hd
    rw [foldl_storeByte_getElem hnodup ((hat i hi).symm.trans hd), zero_add]
  · intro d hd
    refine foldl_storeByte fun hmem => ?_
    obtain ⟨i, hi⟩ := mem_iff_getElem?.mp hmem
    have hlt := (List.getElem?_eq_some_iff.mp hi).1
    exact hd i hlt ((hat i hlt).trans hi)

/-- A byte of the buffer that differs from all others is found at one place only. -/
lemma prefix_of_storesOnly {l E : List (Option Int)} (hnodup : (l.filterMap id).Nodup)
    (hlen : l.length ≤ E.length)
    (h : ∀ dev b, StoresOnly l.length E dev b (l.zipIdx.foldl (storeByte b) dev)) : l <+: E := by
  refine prefix_iff_getElem?.mpr fun i hi => ?_
  let b (j : Nat) : UInt8 := if j = i then 1 else 0
  obtain ⟨hstored, hkept⟩ := h (fun _ => 0) b
  have hone : ∀ j, b j = 1 → j = i := by
    intro j hj
    by_contra hne
    exact absurd ((if_neg hne).symm.trans hj) (show (0 : UInt8) ≠ 1 by decide)
  have hself : b i = 1 := if_pos rfl
  have hzero : (0 : UInt8) ≠ 1 := by decide
  rw [getElem?_eq_getElem (by omega), Option.some.injEq]
  cases hE : E[i] with
  | some d =>
    have hd := hstored i d hi (by rw [getElem?_eq_getElem (by omega), hE])
    by_cases hmem : some d ∈ l
    · obtain ⟨j, hj⟩ := mem_iff_getElem?.mp hmem
      rw [foldl_storeByte_getElem hnodup hj, zero_add, hself] at hd
      obtain rfl := hone j hd
      rw [getElem?_eq_getElem hi, Option.some.injEq] at hj
      exact hj.symm
    · rw [foldl_storeByte hmem, hself] at hd
      exact absurd hd hzero
  | none =>
    cases hl : l[i] with
    | none => rfl
    | some d =>
      have hd : (l.zipIdx 0).foldl (storeByte b) (fun _ => 0) d = b (0 + i) :=
        foldl_storeByte_getElem hnodup (by rw [getElem?_eq_getElem hi, hl])
      rw [zero_add, hself] at hd
      refine absurd (hd.symm.trans (hkept d fun j hj hEj => ?_)).symm hzero
      obtain rfl := hone j ((hstored j d hj hEj).symm.trans hd)
      rw [getElem?_eq_getElem (by omega), hE] at hEj
      cases hEj

/-- A device can tell any two places apart. -/
lemma place_eq_of_bytes {x y : Option Int}
    (h : ∀ dev : Int → UInt8, x.elim 0 dev = y.elim 0 dev) : x = y := by
  cases x with
  | none =>
    cases y with
    | none => rfl
    | some b => exact absurd (h fun _ => 1) (show (0 : UInt8) ≠ 1 by decide)
  | some a =>
    have hmark := h fun d => if d = a then 1 else 0
    cases y with
    | none => simp at hmark
    | some b =>
      by_contra hne
      simp [show b ≠ a from fun hb => hne (congrArg some hb.symm)] at hmark

lemma prefix_of_bytes {l l' : List (Option Int)}
    (h : ∀ dev : Int → UInt8, l.map (·.elim 0 dev) <+: l'.map (·.elim 0 dev)) : l <+: l' := by
  have hlen : l.length ≤ l'.length := by simpa using (h fun _ => 0).length_le
  refine prefix_iff_getElem?.mpr fun i hi => ?_
  rw [getElem?_eq_getElem (by omega), Option.some.injEq]
  refine place_eq_of_bytes fun dev => ?_
  have hat := prefix_iff_getElem?.mp (h dev) i (by rwa [length_map])
  rw [getElem?_map, getElem?_eq_getElem (by omega), getElem_map] at hat
  exact Option.some.inj hat

section

variable {vol : Volume} {counts : DeviceCounts} {rl : List RunlistElement} {ofs pos count : Nat}
  (hcounts : ∀ k len n, counts k len = .ok n → n ≤ len)
include hcounts

lemma deviceAccess_le (h : deviceAccess counts k p len = .ok n) : (n : Int) ≤ max len 0 := by
  unfold deviceAccess at h
  split_ifs at h
  have hle := hcounts _ _ _ h
  omega

lemma writeAccess_le (h : writeAccess counts readOnly k p len = .ok n) : (n : Int) ≤ max len 0 := by
  unfold writeAccess at h
  split_ifs at h
  · cases h
    omega
  · exact deviceAccess_le hcounts h

/-- Each byte is stored at its place, whatever the device and the buffer contain, exactly if
only the last pass is short and, on a read-only volume, all passes are in holes. -/
theorem rlPwrite_stores_iff (hdistinct : ((places vol rl).filterMap id).Nodup) (hpos : ofs ≤ pos)
    (hfit : BytesFit vol ofs rl)
    (h : rlTransfer vol (writeAccess counts readOnly) rl ofs pos count = .ok done) :
    StoresAtPlaces vol counts readOnly rl ofs pos count ↔
      ShortAtEnd done ∧ (readOnly = true → ∀ p ∈ done, p.start = none) := by
  obtain ⟨rl', m, hsuffix, hdrop, hpasses⟩ := rlTransfer_passes
    (fun k p len n => writeAccess_le hcounts) hfit (Int.natCast_nonneg ofs)
    (Int.ofNat_le.mpr hpos) h
  rw [← Int.ofNat_sub hpos, Int.toNat_natCast] at hdrop
  have hat : ∀ i, (places vol rl)[pos - ofs + i]? = ((places vol rl').drop m)[i]? := by
    intro i
    rw [← hdrop, getElem?_drop]
  have hsub := hpasses.sublist
  have hnodup := (distinct_suffix hdistinct hsuffix).sublist
    ((hsub.trans (drop_sublist _ _)).filterMap id)
  have hcall : ∀ dev b, rlPwrite vol counts readOnly dev rl ofs pos count b =
      .ok (if readOnly then dev else (passPlaces done).zipIdx.foldl (storeByte b) dev,
        (passPlaces done).length) := by
    intro dev b
    rw [rlPwrite, h]
    rfl
  have hstores : StoresAtPlaces vol counts readOnly rl ofs pos count ↔ ∀ dev b,
      StoresOnly (passPlaces done).length ((places vol rl').drop m) dev b
        (if readOnly then dev else (passPlaces done).zipIdx.foldl (storeByte b) dev) := by
    unfold StoresAtPlaces StoresOnly
    simp only [hcall, hat]
    refine ⟨fun hall dev b => hall dev b _ _ rfl, fun hall dev b _ _ heq => ?_⟩
    cases heq
    exact hall dev b
  rw [hstores]
  cases readOnly with
  | false =>
    simp only [Bool.false_eq_true, if_false, false_imp_iff, and_true]
    constructor
    · intro hall
      exact hpasses.shortAtEnd (distinct_suffix hdistinct hsuffix)
        (prefix_of_storesOnly hnodup hsub.length_le hall)
    · intro hshort
      exact storesOnly_of_prefix hnodup (hpasses.consecutive hshort)
  | true =>
    simp only [if_true, true_imp_iff]
    constructor
    · intro hall
      have hholes := hpasses.holes fun i hi d hd => by
        have hbyte := (hall (fun _ => 0) fun _ => 1).1 i d hi hd
        exact absurd hbyte (show (0 : UInt8) ≠ 1 by decide)
      exact ⟨hpasses.shortAtEnd_of_holes hholes, hholes⟩
    · rintro ⟨hshort, hholes⟩ dev b
      refine ⟨fun i d hi hd => ?_, fun d _ => rfl⟩
      have hplace := prefix_iff_getElem?.mp (hpasses.consecutive hshort) i hi
      rw [hd, Option.some.injEq] at hplace
      exact absurd (hplace.trans (passPlaces_holes hholes _ (getElem_mem hi)))
        (Option.some_ne_none d)

end

/-- Clusters of two bytes. -/
def pairVolume : Volume := ⟨3, 2, 1, rfl⟩

/-- Two clusters that are not adjacent on the device. -/
def twoRuns : List RunlistElement := [⟨0, 0, 1⟩, ⟨1, 2, 1⟩, ⟨2, lcnEnoent, 0⟩]

lemma twoRuns_fit : BytesFit pairVolume 0 twoRuns where
  lengths := by decide
  positions := by decide
  placed := by
    rw [show places pairVolume twoRuns = [some 0, some 1, some 4, some 5] from rfl]
    simp

/-- The second access is short. -/
def secondShort : DeviceCounts := fun k len => .ok (if k = 0 then len else min len 1)

lemma secondShort_le : ∀ k len n, secondShort k len = .ok n → n ≤ len := by
  intro k len n h
  cases h
  split <;> omega

theorem rlPwrite_stores_iff_twoRuns :
    StoresAtPlaces pairVolume secondShort false twoRuns 0 1 3 ∧
      ¬StoresAtPlaces pairVolume secondShort true twoRuns 0 1 3 := by
  have hcall : rlTransfer pairVolume (writeAccess secondShort false) twoRuns 0 1 3 =
      .ok [⟨some 1, 1, 1⟩, ⟨some 4, 2, 1⟩] := by decide +kernel
  have hreadOnly : rlTransfer pairVolume (writeAccess secondShort true) twoRuns 0 1 3 =
      .ok [⟨some 1, 1, 1⟩, ⟨some 4, 2, 2⟩] := by decide +kernel
  constructor
  · exact (rlPwrite_stores_iff secondShort_le (by decide) (by decide) twoRuns_fit hcall).mpr
      (by decide)
  · rw [rlPwrite_stores_iff secondShort_le (by decide) (by decide) twoRuns_fit hreadOnly]
    decide

/-- After a short write the second byte of the buffer is stored at the place of the third. -/
theorem rlPwrite_short :
    (rlPwrite pairVolume (fun _ _ => .ok 1) false (fun _ => 0) twoRuns 0 0 4
      (UInt8.ofNat <| · + 1)).map (fun r => (r.1 1, r.1 4, r.2)) = .ok (0, 2, 2) ∧
      (places pairVolume twoRuns)[1]? = some (some 1) := by
  decide +kernel

end NtfsDxe
