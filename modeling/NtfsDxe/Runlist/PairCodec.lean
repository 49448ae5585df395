import NtfsDxe.Runlist.Chain
import NtfsDxe.Runlist.SignificantBytes

/-! # The byte sequence of a list of runs

The three loops of the mapping pairs code are compared with one byte sequence:
the size loop counts it, the building loop stores as much of it as the buffer
holds together with a terminator, and the decoding loop expands it.
-/

namespace NtfsDxe

open Foundation List SignedBytes

/-- The change of cluster number stored for a run that follows `prevLcn`. -/
def lcnChange (vol : Volume) (prevLcn : Int) (e : RunlistElement) : Option Int :=
  if storesLcn vol e then some (s64 (e.lcn - prevLcn)) else none

/-- The cluster number to which the change of the next run refers. -/
def followingLcn (vol : Volume) (prevLcn : Int) (e : RunlistElement) : Int :=
  if storesLcn vol e then e.lcn else prevLcn

/-- The bytes of the second field of a pair, empty when it is not stored. -/
def changeBytes : Option Int → List UInt8
  | none => []
  | some change => encode change

/-- The header byte of a pair with fields of the given widths. -/
def pairHeader (lenLen lcnLen : Nat) : UInt8 := UInt8.ofNat (lcnLen <<< 4 ||| lenLen)

def pairBytes (length : Int) (change : Option Int) : List UInt8 :=
  pairHeader (encode length).length (changeBytes change).length ::
    (encode length ++ changeBytes change)

/-- The bytes of the pairs of consecutive runs, without the terminator. -/
def runsBytes (vol : Volume) : List RunlistElement → Int → List UInt8
  | [], _ => []
  | e :: rest, prevLcn =>
    pairBytes e.length (lcnChange vol prevLcn e) ++ runsBytes vol rest (followingLcn vol prevLcn e)

def lastLcn (vol : Volume) : List RunlistElement → Int → Int
  | [], prevLcn => prevLcn
  | e :: rest, prevLcn => lastLcn vol rest (followingLcn vol prevLcn e)

lemma pairBytes_length (length : Int) :
    (pairBytes length change).length =
      1 + (encode length).length + (changeBytes change).length := by
  simp only [pairBytes, length_cons, length_append]
  omega

lemma runsBytes_append :
    runsBytes vol (xs ++ ys) prevLcn =
      runsBytes vol xs prevLcn ++ runsBytes vol ys (lastLcn vol xs prevLcn) := by
  induction xs generalizing prevLcn with
  | nil => rfl
  | cons e rest ih => simp [runsBytes, lastLcn, ih]

lemma changeBytes_length_le (hchange : ∀ c ∈ change, IsS64 c) :
    (changeBytes change).length ≤ 8 := by
  cases change with
  | none => simp [changeBytes]
  | some c => exact encode_length_le_eight (hchange c rfl)

lemma lcnChange_isS64 (vol : Volume) (prevLcn : Int) (e : RunlistElement) :
    ∀ c ∈ lcnChange vol prevLcn e, IsS64 c := by
  intro c hc
  unfold lcnChange at hc
  split at hc
  · cases hc
    exact s64_isS64 _
  · cases hc

/-- A pair takes at most seventeen bytes. -/
lemma pairBytes_length_le {length : Int} (hlength : IsS64 length)
    (hchange : ∀ c ∈ change, IsS64 c) : (pairBytes length change).length ≤ 17 := by
  have hlen := encode_length_le_eight hlength
  have hlcn := changeBytes_length_le hchange
  rw [pairBytes_length]
  omega

/-! ## The size loop -/

/-- The runs of a chain inside the 64-bit range have 64-bit lengths. -/
lemma Chain.length_isS64 (hchain : Chain a runs b) (ha : 0 ≤ a) (hb : IsS64 b) :
    ∀ e ∈ runs, IsS64 e.length := by
  induction runs generalizing a with
  | nil => simp
  | cons e rest ih =>
    obtain ⟨_, hpos, _, hrest⟩ := hchain
    have hle := hrest.le
    intro e' he'
    rcases mem_cons.mp he' with rfl | htail
    · rw [isS64_iff] at hb ⊢
      omega
    · exact ih hrest (by omega) e' htail

lemma not_badRun (hpos : 0 < e.length) (hlcn : lcnHole ≤ e.lcn) : ¬ BadRun e := by
  unfold BadRun
  omega

lemma runsBytes_length_le (vol : Volume) (prevLcn : Int) (hchain : Chain a runs b) (ha : 0 ≤ a)
    (hb : IsS64 b) : (runsBytes vol runs prevLcn).length ≤ 17 * runs.length := by
  induction runs generalizing a prevLcn with
  | nil => simp [runsBytes]
  | cons e rest ih =>
    have hlen := hchain.length_isS64 ha hb e mem_cons_self
    obtain ⟨_, hpos, _, hrest⟩ := hchain
    have hpair := pairBytes_length_le hlen (lcnChange_isS64 vol prevLcn e)
    have htail := ih (followingLcn vol prevLcn e) hrest (by omega)
    simp only [runsBytes, length_append, length_cons]
    omega

lemma sizeLoop_chain (vol : Volume) (prevLcn rls : Int) (hchain : Chain a runs b)
    (hterm : t.length = 0) (hmax : rls + (runsBytes vol runs prevLcn).length ≤ maxSize) :
    sizeLoop vol maxSize (runs ++ [t]) prevLcn rls =
      .ok (rls + (runsBytes vol runs prevLcn).length) := by
  induction runs generalizing a prevLcn rls with
  | nil => simp [sizeLoop, hterm, runsBytes]
  | cons e rest ih =>
    obtain ⟨_, hpos, hlcn, hrest⟩ := hchain
    simp only [runsBytes, length_append, pairBytes_length] at hmax ⊢
    have hgo : ¬ (e.length = 0 ∨ maxSize < rls) := by omega
    rw [cons_append, sizeLoop, if_neg hgo, if_neg (not_badRun hpos hlcn)]
    -- Both branches add the width of this pair and go on with the same counts.
    by_cases hstores : storesLcn vol e
    · simp only [lcnChange, followingLcn, hstores, if_true, changeBytes] at hmax ⊢
      rw [getNrSignificantBytes_eq, getNrSignificantBytes_eq, ih _ _ hrest (by omega)]
      congr 1
      push_cast
      ring
    · simp only [lcnChange, followingLcn, hstores, changeBytes] at hmax ⊢
      rw [getNrSignificantBytes_eq]
      simp only [Bool.false_eq_true, if_false, length_nil] at hmax ⊢
      rw [ih _ _ hrest (by omega)]
      congr 1
      push_cast
      ring

/-! ## The building loop -/

section

variable (buf : Buffer) (pos : Nat) (dstMax : Int) (change : Option Int)

lemma writeChange_fits (hmax : dstMax < buf.length)
    (hfit : pos + (changeBytes change).length ≤ dstMax + 1) :
    writeChange buf pos dstMax change =
      .ok (splice buf pos (changeBytes change), some (changeBytes change).length) := by
  cases change with
  | none => simp [writeChange, changeBytes]
  | some c => exact writeSignificantBytes_fits buf pos dstMax c hmax hfit

lemma writeChange_full (hpos : pos ≤ dstMax + 1) (hmax : dstMax < buf.length)
    (hfull : dstMax + 1 < pos + (changeBytes change).length) :
    ∃ buf', writeChange buf pos dstMax change = .ok (buf', none) ∧
      buf'.length = buf.length ∧ buf'.take pos = buf.take pos := by
  cases change with
  | none => simp [changeBytes] at hfull; omega
  | some c => exact writeSignificantBytes_full buf pos dstMax c hmax hfull

end

lemma take_eq_of_take_eq {xs ys : List α} (hij : i ≤ j)
    (htake : xs.take j = ys.take j) : xs.take i = ys.take i := by
  have hshort := congrArg (List.take i) htake
  rwa [take_take, take_take, min_eq_left hij] at hshort

section

variable (buf : Buffer) (dst : Nat) (length : Int) (change : Option Int)

/-- A pair that fits together with a terminator is stored whole. -/
lemma writePair_fits (hfit : dst + (pairBytes length change).length < buf.length) :
    writePair buf dst (buf.length - 1) length change =
      .ok (splice buf dst (pairBytes length change),
        some (dst + (pairBytes length change).length)) := by
  rw [pairBytes_length] at hfit
  have hlenFits := writeSignificantBytes_fits buf (dst + 1) (buf.length - 1) length (by omega)
    (by omega)
  set lenBytes := encode length with hlenBytes
  have hlenBuf : (splice buf (dst + 1) lenBytes).length = buf.length := splice_length (by omega)
  have hlcnFits := writeChange_fits (splice buf (dst + 1) lenBytes) (dst + 1 + lenBytes.length)
    (buf.length - 1) change (by omega) (by omega)
  rw [splice_splice _ _ _ (by omega)] at hlcnFits
  have hroom : dst + 1 + (lenBytes ++ changeBytes change).length ≤ buf.length := by
    rw [length_append]
    omega
  have hbuf :=
    splice_length hroom
  have hnext : ¬ ((buf.length : Int) - 1 <
      ((dst + lenBytes.length + (changeBytes change).length + 1 : Nat) : Int)) := by
    omega
  simp only [writePair, hlenFits, hlcnFits, bind, Except.bind, hnext, if_false]
  rw [store_ok _ (by omega), splice_set_front hroom]
  simp only [pairBytes, ← hlenBytes, length_cons, length_append]
  congr 3
  omega

/-- A pair that does not fit together with a terminator leaves the bytes before
it alone, whichever of its fields reaches the end of the buffer. -/
lemma writePair_full (hdst : dst < buf.length)
    (hfull : buf.length ≤ dst + (pairBytes length change).length) :
    ∃ buf', writePair buf dst (buf.length - 1) length change = .ok (buf', none) ∧
      buf'.length = buf.length ∧ buf'.take dst = buf.take dst := by
  rw [pairBytes_length] at hfull
  set lenBytes := encode length with hlenBytes
  by_cases hlen : dst + 1 + lenBytes.length ≤ buf.length
  · have hlenFits := writeSignificantBytes_fits buf (dst + 1) (buf.length - 1) length (by omega)
      (by rw [← hlenBytes]; omega)
    rw [← hlenBytes] at hlenFits
    have hlenBuf := splice_length (by omega)
    have hlenTake := take_eq_of_take_eq (by omega : dst ≤ dst + 1)
      (splice_take buf lenBytes (by omega))
    by_cases hlcn : dst + 1 + lenBytes.length + (changeBytes change).length ≤ buf.length
    · -- Both fields fit, but there is no byte left for the terminator.
      have hlcnFits := writeChange_fits (splice buf (dst + 1) lenBytes)
        (dst + 1 + lenBytes.length) (buf.length - 1) change (by omega) (by omega)
      rw [splice_splice _ _ _ (by omega)] at hlcnFits
      have hroom : dst + 1 + (lenBytes ++ changeBytes change).length ≤ buf.length := by
        rw [length_append]
        omega
      have hnext : (buf.length : Int) - 1 <
          ((dst + lenBytes.length + (changeBytes change).length + 1 : Nat) : Int) := by
        omega
      refine ⟨splice buf (dst + 1) (lenBytes ++ changeBytes change), ?_, splice_length hroom,
        take_eq_of_take_eq (by omega : dst ≤ dst + 1) (splice_take buf _ (by omega))⟩
      simp only [writePair, hlenFits, hlcnFits, bind, Except.bind, pure, Except.pure, hnext,
        if_true]
    · obtain ⟨buf', hwrite, hbuf, htake⟩ := writeChange_full (splice buf (dst + 1) lenBytes)
        (dst + 1 + lenBytes.length) (buf.length - 1) change (by omega) (by omega)
        (by omega)
      refine ⟨buf', ?_, hbuf.trans hlenBuf, ?_⟩
      · simp only [writePair, hlenFits, hwrite, bind, Except.bind, pure, Except.pure]
      · rw [take_eq_of_take_eq (by omega) htake, hlenTake]
  · obtain ⟨buf', hwrite, hbuf, htake⟩ := writeSignificantBytes_full buf (dst + 1)
      (buf.length - 1) length (by omega) (by rw [← hlenBytes]; omega)
    refine ⟨buf', ?_, hbuf, take_eq_of_take_eq (by omega) htake⟩
    simp only [writePair, hwrite, bind, Except.bind, pure, Except.pure]

end

lemma buildLoop_cons_stored (hpos : 0 < e.length) (hlcn : lcnHole ≤ e.lcn)
    (hwrite : writePair buf dst dstMax e.length (lcnChange vol prevLcn e) =
      .ok (buf', some dstNext)) :
    buildLoop vol dstMax (e :: rl) prevLcn dst buf =
      buildLoop vol dstMax rl (followingLcn vol prevLcn e) dstNext buf' := by
  rw [lcnChange] at hwrite
  rw [buildLoop, if_neg (by omega), if_neg (not_badRun hpos hlcn)]
  simp only [hwrite]
  rfl

lemma buildLoop_cons_full (hpos : 0 < e.length) (hlcn : lcnHole ≤ e.lcn)
    (hwrite : writePair buf dst dstMax e.length (lcnChange vol prevLcn e) = .ok (buf', none)) :
    buildLoop vol dstMax (e :: rl) prevLcn dst buf = finishBuild false buf' dst (e :: rl) := by
  rw [lcnChange] at hwrite
  rw [buildLoop, if_neg (by omega), if_neg (not_badRun hpos hlcn)]
  simp only [hwrite, bind, Except.bind]

/-- The building loop stores the longest list of leading runs whose pairs and
terminator fit, and the rest of the runs is what it reports. -/
lemma buildLoop_chain (vol : Volume) (prevLcn : Int) (dst : Nat) (buf : Buffer)
    (hchain : Chain a runs b) (hterm : t.length = 0) (hdst : dst < buf.length) :
    ∃ stored rest buf', runs = stored ++ rest ∧
      buildLoop vol (buf.length - 1) (runs ++ [t]) prevLcn dst buf =
        .ok { complete := rest.isEmpty, dst := buf', stopRl := some (rest ++ [t]) } ∧
      buf'.length = buf.length ∧
      buf'.take (dst + (runsBytes vol stored prevLcn).length + 1) =
        buf.take dst ++ runsBytes vol stored prevLcn ++ [0] ∧
      dst + (runsBytes vol stored prevLcn).length < buf.length ∧
      (rest = [] → buf' = splice buf dst (runsBytes vol stored prevLcn ++ [0])) ∧
      ∀ e ∈ rest.head?, buf.length ≤ dst + (runsBytes vol stored prevLcn).length +
        (pairBytes e.length (lcnChange vol (lastLcn vol stored prevLcn) e)).length := by
  induction runs generalizing a prevLcn dst buf with
  | nil =>
    refine ⟨[], [], splice buf dst [0], rfl, ?_, splice_length hdst, ?_,
      by simpa [runsBytes] using hdst, fun _ => rfl, by simp⟩
    · rw [nil_append, buildLoop, if_pos hterm, finishBuild, store_ok _ hdst,
        set_eq_splice _ hdst]
      rfl
    · simpa [runsBytes] using splice_take_end buf [0] (by omega : dst ≤ buf.length)
  | cons e runs ih =>
    obtain ⟨_, hpos, hlcn, hrest⟩ := hchain
    by_cases hfit : dst + (pairBytes e.length (lcnChange vol prevLcn e)).length < buf.length
    · set pair := pairBytes e.length (lcnChange vol prevLcn e)
      have hlen : (splice buf dst pair).length = buf.length := splice_length (by omega)
      obtain ⟨stored, rest, buf', heq, hbuild, hbuf, htake, hend, hfull, hnext⟩ :=
        ih (followingLcn vol prevLcn e) (dst + pair.length) (splice buf dst pair) hrest
          (by omega)
      have hbytes : runsBytes vol (e :: stored) prevLcn =
          pair ++ runsBytes vol stored (followingLcn vol prevLcn e) := rfl
      rw [hlen] at hbuild hbuf hend hnext
      refine ⟨e :: stored, rest, buf', by rw [heq]; rfl, ?_, hbuf, ?_, ?_, ?_, ?_⟩
      · rw [cons_append, buildLoop_cons_stored hpos hlcn (writePair_fits _ _ _ _ hfit)]
        exact hbuild
      · rw [splice_take_end buf pair (by omega)] at htake
        rw [hbytes, length_append, ← add_assoc, htake]
        simp
      · rw [hbytes, length_append]
        omega
      · intro hdone
        rw [hfull hdone, splice_splice _ _ _ (by omega), hbytes, append_assoc]
      · intro e' he'
        have hnot := hnext e' he'
        rw [hbytes, length_append]
        change _ ≤ _ + (pairBytes e'.length
          (lcnChange vol (lastLcn vol stored (followingLcn vol prevLcn e)) e')).length
        omega
    · obtain ⟨buf', hwrite, hbuf, htake⟩ := writePair_full buf dst e.length
        (lcnChange vol prevLcn e) hdst (by omega)
      have hdst' : dst < buf'.length := by omega
      refine ⟨[], e :: runs, buf'.set dst 0, rfl, ?_, by simpa using hbuf, ?_,
        by simpa [runsBytes] using hdst, by simp, ?_⟩
      · rw [cons_append, buildLoop_cons_full hpos hlcn hwrite, finishBuild, store_ok _ hdst']
        rfl
      · rw [set_eq_splice _ hdst']
        have hzero := splice_take_end buf' [0] (by omega : dst ≤ buf'.length)
        rw [htake] at hzero
        simpa [runsBytes] using hzero
      · intro e' he'
        cases he'
        simpa [runsBytes, lastLcn] using hfit

end NtfsDxe
