import NtfsDxe.Directory.WalkSound

/-! # Walks through a directory

One call from the beginning passes all entries of a well-formed directory. A walk that
the callback interrupts in an index block goes on with the first bit of the byte in which
the bit of the block stands, as if it were the bit of the block. It is resumed rightly just
if this makes no difference for the blocks up to the next entry that is refused.
-/

namespace NtfsDxe

open Foundation.Feed List DirContents

variable {σ : Type*}

/-- What a call returns that has passed the entries of which `fed` tells those left. -/
def readdirAnswer (endPos : Nat) : σ × List Dirent → WalkResult σ
  | (s, []) => .ok ⟨endPos, s⟩
  | (s, x :: _) => .error (.refused, ⟨x.pos, s⟩)

lemma Feeds.answer (h : Feeds r fed) (hend : ∀ w, r = .ok w → w.pos = endPos) :
    r = readdirAnswer endPos fed := by
  obtain ⟨s, left⟩ := fed
  cases left with
  | nil =>
    obtain ⟨p, hr⟩ := h.done rfl
    obtain rfl : p = endPos := hend _ hr
    exact hr
  | cons x rest => exact h.refused x rest rfl

lemma pos_of_map_ok {r : WalkResult σ} (h : (r.map fun w => { w with pos := p }) = .ok w) :
    w.pos = p := by
  cases r with
  | error e => cases h
  | ok v =>
    obtain rfl := Except.ok.inj h
    rfl

variable {filldir : σ → Dirent → σ × Int} {d : DirInode} (contents : DirContents d)

namespace DirContents

/-- The attribute that `ntfs_readdir` has opened. -/
def opened : Option DirIndexAllocation := contents.allocation.map fun a => a.ia

lemma ntfsReaddir_eq :
    ntfsReaddir filldir d w = readdirFrom filldir d contents.opened contents.size w := by
  rw [ntfsReaddir, contents.directory, contents.allocation_eq, opened, size]
  cases contents.allocation with
  | none => rfl
  | some a => rfl

include contents in
lemma mftRecordSize_ge : 32 ≤ d.vol.mftRecordSize := by
  have hfits := contents.rootFits
  have hheader := contents.rootChain.header_le
  omega

lemma mem_allocationDirents (hx : x ∈ contents.allocationDirents) :
    d.vol.mftRecordSize ≤ x.pos ∧ x.pos < d.endPos contents.size := by
  rw [allocationDirents] at hx
  rw [size]
  cases hallocation : contents.allocation with
  | none =>
    rw [hallocation] at hx
    cases hx
  | some a =>
    rw [hallocation] at hx
    obtain ⟨k, _, hlt, hused, hx⟩ := contents.mem_direntsFrom a hx
    obtain ⟨hbase, _, hend⟩ := contents.mem_blockDirents a hlt hused hx
    exact ⟨(Nat.le_add_left ..).trans hbase, hend⟩

def indexDirents : List Dirent :=
  nodeDirents d 0 contents.rootEntries ++ contents.allocationDirents

lemma mem_indexDirents (hx : x ∈ contents.indexDirents) :
    2 ≤ x.pos ∧ x.pos < d.endPos contents.size := by
  rcases mem_append.mp hx with hx | hx
  · obtain ⟨hge, hlt⟩ := contents.mem_rootDirents hx
    exact ⟨hge, lt_of_lt_of_le hlt (Nat.le_add_left ..)⟩
  · obtain ⟨hge, hlt⟩ := contents.mem_allocationDirents hx
    exact ⟨by have := contents.mftRecordSize_ge; omega, hlt⟩

lemma walk_ascending : contents.walk.Pairwise fun x y => x.pos < y.pos := by
  have hindex : contents.indexDirents.Pairwise fun x y => x.pos < y.pos := by
    rw [indexDirents, pairwise_append]
    refine ⟨nodeDirents_ascending contents.rootChain.ascending, ?_, ?_⟩
    · rw [allocationDirents]
      cases contents.allocation with
      | none => exact List.Pairwise.nil
      | some a => exact contents.direntsFrom_ascending a 0
    · intro x hx y hy
      exact lt_of_lt_of_le (contents.mem_rootDirents hx).2 (contents.mem_allocationDirents hy).1
  refine List.Pairwise.cons ?_ (List.Pairwise.cons ?_ hindex)
  · intro x hx
    rcases mem_cons.mp hx with rfl | hx
    · exact Nat.zero_lt_one
    · exact lt_of_lt_of_le Nat.zero_lt_two (contents.mem_indexDirents hx).1
  · intro x hx
    exact lt_of_lt_of_le one_lt_two (contents.mem_indexDirents hx).1

lemma mem_walk (hx : x ∈ contents.walk) : x.pos < 2 ∨ x ∈ contents.indexDirents := by
  rcases mem_cons.mp hx with rfl | hx
  · exact .inl Nat.zero_lt_two
  · rcases mem_cons.mp hx with rfl | hx
    · exact .inl one_lt_two
    · exact .inr hx

lemma two_lt_endPos : 2 < d.endPos contents.size :=
  lt_of_lt_of_le (by have := contents.mftRecordSize_ge; omega) (Nat.le_add_left ..)

lemma mem_walk_lt (hx : x ∈ contents.walk) : x.pos < d.endPos contents.size := by
  rcases contents.mem_walk hx with hdot | hx
  · exact hdot.trans contents.two_lt_endPos
  · exact (contents.mem_indexDirents hx).2

end DirContents

/-! ## The index -/

lemma rootLoop_feeds :
    Feeds (rootLoop filldir d contents.root w)
      (feed filldir w.dirent
        ((nodeDirents d 0 contents.rootEntries).filter fun x => w.pos ≤ x.pos)) := by
  have hlength := contents.rootChain.length_add_le
  rw [filter_nodeDirents (fun _ => Iff.rfl)]
  exact entryLoop_feeds contents.memory 0 contents.rootChain (by omega) w

/-- The block in which a position of the index allocation is. -/
def DirContents.blockOf (p : Nat) : Nat :=
  (p - d.vol.mftRecordSize) / contents.root.indexBlockSize

/-- A position from which a call finds the blocks, with the callback in this state. -/
def DirContents.FoundAt (filldir : σ → Dirent → σ × Int) (s : σ) (p : Nat) : Prop :=
  d.vol.mftRecordSize ≤ p → ∀ a, contents.allocation = some a →
    contents.blockOf p < 8 * a.bmp.data.size ∧
      a.Found filldir s (contents.blockOf p % 8) (contents.blockOf p) p

lemma filter_allocationDirents {a : AllocationContents d contents.root}
    (ha : contents.allocation = some a) (hpos : d.vol.mftRecordSize ≤ p)
    (hb : contents.blockOf p ≤ 8 * a.bmp.data.size) :
    (contents.allocationDirents.filter fun x => p ≤ x.pos) =
      a.passedFrom (contents.blockOf p) p := by
  have hbase : a.blockBase (contents.blockOf p) ≤ p := by
    have hle := Nat.div_mul_le_self (p - d.vol.mftRecordSize) contents.root.indexBlockSize
    rw [AllocationContents.blockBase, blockOf]
    omega
  rw [allocationDirents, ha]
  exact contents.filter_direntsFrom a hb hbase

lemma allocation_feeds {a : AllocationContents d contents.root}
    (ha : contents.allocation = some a) {w : DirWalk σ} (hpos : d.vol.mftRecordSize ≤ w.pos)
    (hfound : contents.FoundAt filldir w.dirent w.pos) (p : Nat) :
    Feeds ((allocationLoop filldir d contents.root a.ia w).map fun w => { w with pos := p })
      (feed filldir w.dirent (contents.allocationDirents.filter fun x => w.pos ≤ x.pos)) := by
  obtain ⟨hb, hfound⟩ := hfound hpos a ha
  rw [filter_allocationDirents contents ha hpos (le_of_lt hb)]
  exact (allocationLoop_feeds contents a hpos rfl hb hfound).map p

lemma foundAt_start : contents.FoundAt filldir s d.vol.mftRecordSize := by
  intro _ a _
  rw [blockOf, Nat.sub_self, Nat.zero_div]
  exact ⟨mul_pos (by decide) a.nonempty, found_zero contents⟩

/-- An index block of the directory begins in the index. -/
lemma blockSize_valid : ¬ (contents.root.indexBlockSize < 512 ∨
    contents.root.indexBlockSize &&& (contents.root.indexBlockSize - 1) ≠ 0) := by
  rw [contents.blockSize_eq, Nat.and_two_pow_sub_one_eq_mod, Nat.mod_self]
  have hpow : 2 ^ 9 ≤ 2 ^ contents.bits := Nat.pow_le_pow_right (by decide) contents.bits_ge
  rintro (hlt | hne)
  · exact absurd hpow (not_le.mpr hlt)
  · exact hne rfl

lemma rootDirents_before (hpos : d.vol.mftRecordSize ≤ p) :
    ((nodeDirents d 0 contents.rootEntries).filter fun x => p ≤ x.pos) = [] := by
  apply filter_eq_nil_iff.mpr
  intro x hx
  simpa using lt_of_lt_of_le (contents.mem_rootDirents hx).2 hpos

lemma indexWalk_feeds {w : DirWalk σ} (hfound : contents.FoundAt filldir w.dirent w.pos) :
    Feeds (indexWalk filldir d contents.opened w)
      (feed filldir w.dirent (contents.indexDirents.filter fun x => w.pos ≤ x.pos)) := by
  rw [indexWalk, contents.root_eq, indexDirents, filter_append]
  dsimp only
  rw [if_neg (blockSize_valid contents)]
  by_cases hpos : d.vol.mftRecordSize ≤ w.pos
  · rw [if_pos hpos, rootDirents_before contents hpos, opened]
    cases ha : contents.allocation with
    | none =>
      rw [allocationDirents, ha]
      exact feeds_ok
    | some a => exact allocation_feeds contents ha hpos hfound _
  · have hall : (contents.allocationDirents.filter fun x => w.pos ≤ x.pos) =
        contents.allocationDirents.filter fun x => d.vol.mftRecordSize ≤ x.pos := by
      apply filter_congr
      intro x hx
      have hx := (contents.mem_allocationDirents hx).1
      rw [decide_eq_decide]
      exact iff_of_true ((le_of_lt (lt_of_not_ge hpos)).trans hx) hx
    rw [if_neg hpos, hall]
    refine (rootLoop_feeds contents).bind ?_
    intro w
    rw [opened]
    cases ha : contents.allocation with
    | none =>
      rw [allocationDirents, ha]
      exact feeds_ok
    | some a =>
      have hfeeds := @allocation_feeds _ filldir _ contents a ha
        ⟨d.vol.mftRecordSize, w.dirent⟩ (le_refl _) (foundAt_start contents)
      exact hfeeds _

/-- A walk over the index that is not stopped ends at the end of the directory. -/
lemma indexWalk_end (hpos : w.pos < d.endPos contents.size)
    (h : indexWalk filldir d contents.opened w = .ok w') : w'.pos = d.endPos contents.size := by
  rw [indexWalk, contents.root_eq] at h
  dsimp only at h
  rw [opened] at h
  rw [size] at hpos ⊢
  by_cases hsize : contents.root.indexBlockSize < 512 ∨
      contents.root.indexBlockSize &&& (contents.root.indexBlockSize - 1) ≠ 0
  · rw [if_pos hsize] at h
    cases h
  · rw [if_neg hsize] at h
    by_cases hroot : d.vol.mftRecordSize ≤ w.pos
    · rw [if_pos hroot] at h
      cases ha : contents.allocation with
      | none =>
        rw [ha] at hpos
        exact absurd hroot (not_le.mpr (by simpa [DirInode.endPos] using hpos))
      | some a =>
        rw [ha] at h
        exact pos_of_map_ok h
    · rw [if_neg hroot] at h
      cases hloop : rootLoop filldir d contents.root w with
      | error e =>
        rw [hloop] at h
        cases h
      | ok v =>
        rw [hloop] at h
        cases ha : contents.allocation with
        | none =>
          rw [ha] at h
          obtain rfl := Except.ok.inj h
          rfl
        | some a =>
          rw [ha] at h
          exact pos_of_map_ok h

/-! ## One call -/

lemma DirContents.filter_indexDirents (hp : p ≤ 2) :
    (contents.indexDirents.filter fun x => p ≤ x.pos) = contents.indexDirents := by
  apply filter_eq_self.mpr
  intro x hx
  simpa using hp.trans (contents.mem_indexDirents hx).1

lemma DirContents.filter_walk :
    (contents.walk.filter fun x => p ≤ x.pos) =
      (if p = 0 then [d.dotEntry] else []) ++
        ((if p ≤ 1 then [dotDotEntry contents.parent] else []) ++
          contents.indexDirents.filter fun x => p ≤ x.pos) := by
  have hwalk : contents.walk =
      [d.dotEntry] ++ ([dotDotEntry contents.parent] ++ contents.indexDirents) := rfl
  have hdot : p ≤ d.dotEntry.pos ↔ p = 0 := Nat.le_zero
  have hdotDot : p ≤ (dotDotEntry contents.parent).pos ↔ p ≤ 1 := Iff.rfl
  rw [hwalk, filter_append, filter_append]
  congr 1
  · by_cases hp : p = 0
    · rw [if_pos hp, filter_cons_of_pos (by simpa using hdot.mpr hp), filter_nil]
    · rw [if_neg hp, filter_cons_of_neg (by simpa using mt hdot.mp hp), filter_nil]
  · by_cases hp : p ≤ 1
    · rw [if_pos hp, filter_cons_of_pos (by simpa using hdotDot.mpr hp), filter_nil]
    · rw [if_neg hp, filter_cons_of_neg (by simpa using mt hdotDot.mp hp), filter_nil]

lemma passDot_zero :
    passDot filldir d ⟨0, s⟩ =
      (callFilldir filldir ⟨0, s⟩ d.dotEntry).map fun w => { w with pos := 1 } := if_pos rfl

lemma passDot_of_ne (hp : p ≠ 0) : passDot filldir d ⟨p, s⟩ = .ok ⟨p, s⟩ :=
  if_neg hp

lemma passDotDot_one :
    passDotDot filldir d ⟨1, s⟩ =
      (callFilldir filldir ⟨1, s⟩ (dotDotEntry contents.parent)).map
        fun w => { w with pos := 2 } := by
  rw [passDotDot, if_pos rfl, contents.parent_eq]

lemma passDotDot_of_ne (hp : p ≠ 1) : passDotDot filldir d ⟨p, s⟩ = .ok ⟨p, s⟩ := if_neg hp

lemma bind_map_pos (r : WalkResult σ) (p : Nat) (k : DirWalk σ → WalkResult σ) :
    (r.map fun w => { w with pos := p }).bind k = r.bind fun w => k ⟨p, w.dirent⟩ := by
  cases r with
  | error e => rfl
  | ok w => rfl

/-- The positions of the emulated entries are before the index. -/
lemma foundAt_dots (hp : p ≤ 2) : contents.FoundAt filldir s p := by
  intro hmft
  have := contents.mftRecordSize_ge
  omega

lemma dotDot_feeds (hp : p ≠ 0) (s : σ) (hfound : contents.FoundAt filldir s p) :
    Feeds ((passDotDot filldir d ⟨p, s⟩).bind (indexWalk filldir d contents.opened))
      (feed filldir s ((if p ≤ 1 then [dotDotEntry contents.parent] else []) ++
          contents.indexDirents.filter fun x => p ≤ x.pos)) := by
  by_cases hone : p = 1
  · subst hone
    rw [passDotDot_one contents, bind_map_pos, contents.filter_indexDirents (by decide)]
    refine (callFilldir_feeds _ rfl).bind ?_
    intro w
    have hfeeds := @indexWalk_feeds _ filldir _ contents ⟨2, w.dirent⟩
      (foundAt_dots contents (le_refl 2))
    rwa [contents.filter_indexDirents (le_refl 2)] at hfeeds
  · rw [passDotDot_of_ne hone, if_neg (by omega)]
    exact indexWalk_feeds contents hfound

/-- What a call passes that begins before the end of the directory. -/
lemma readdirFrom_feeds (hp : p < d.endPos contents.size)
    (hfound : contents.FoundAt filldir s p) :
    Feeds (readdirFrom filldir d contents.opened contents.size ⟨p, s⟩)
      (feed filldir s (contents.walk.filter fun x => p ≤ x.pos)) := by
  rw [readdirFrom, if_neg (not_le.mpr hp), contents.filter_walk]
  by_cases hzero : p = 0
  · subst hzero
    rw [passDot_zero, bind_map_pos]
    refine (callFilldir_feeds _ rfl).bind ?_
    intro w
    have hfeeds := @dotDot_feeds _ filldir _ contents 1 (by decide) w.dirent
      (foundAt_dots contents (by decide))
    rw [contents.filter_indexDirents (by decide)] at hfeeds ⊢
    exact hfeeds
  · rw [passDot_of_ne hzero, if_neg hzero]
    exact dotDot_feeds contents hzero s hfound

lemma pos_lt_of_ite {r : WalkResult σ} (hp : p < e) (hw : w.pos < e)
    (h : (if w.pos = n then r.map fun w => { w with pos := p } else .ok w) = .ok v) :
    v.pos < e := by
  split at h
  · rw [pos_of_map_ok h]
    exact hp
  · obtain rfl := Except.ok.inj h
    exact hw

lemma passDot_lt (he : 2 < e) (hw : w.pos < e) (h : passDot filldir d w = .ok v) : v.pos < e :=
  pos_lt_of_ite (Nat.lt_of_succ_lt he) hw h

include contents in
lemma passDotDot_lt {w : DirWalk σ} (he : 2 < e) (hw : w.pos < e)
    (h : passDotDot filldir d w = .ok v) : v.pos < e := by
  rw [passDotDot, contents.parent_eq] at h
  exact pos_lt_of_ite he hw h

lemma readdirFrom_end (hpos : w.pos ≤ d.endPos contents.size)
    (h : readdirFrom filldir d contents.opened contents.size w = .ok w') :
    w'.pos = d.endPos contents.size := by
  rw [readdirFrom] at h
  by_cases hend : d.endPos contents.size ≤ w.pos
  · rw [if_pos hend] at h
    obtain rfl := Except.ok.inj h
    exact le_antisymm hpos hend
  · have hlast := contents.two_lt_endPos
    rw [if_neg hend] at h
    cases hdot : passDot filldir d w with
    | error e =>
      rw [hdot] at h
      cases h
    | ok v =>
      rw [hdot] at h
      change (passDotDot filldir d v).bind _ = _ at h
      cases hdotDot : passDotDot filldir d v with
      | error e =>
        rw [hdotDot] at h
        cases h
      | ok u =>
        rw [hdotDot] at h
        exact indexWalk_end contents
          (passDotDot_lt contents hlast (passDot_lt hlast (lt_of_not_ge hend) hdot) hdotDot) h

/-- A call passes the entries from its position on, up to the first one that is
refused. -/
lemma ntfsReaddir_eq_answer (hp : p ≤ d.endPos contents.size)
    (hfound : p < d.endPos contents.size → contents.FoundAt filldir s p) :
    ntfsReaddir filldir d ⟨p, s⟩ =
      readdirAnswer (d.endPos contents.size)
        (feed filldir s (contents.walk.filter fun x => p ≤ x.pos)) := by
  rw [contents.ntfsReaddir_eq]
  by_cases hend : p < d.endPos contents.size
  · exact (readdirFrom_feeds contents hend (hfound hend)).answer
      fun w => readdirFrom_end contents hp
  · have hnone : (contents.walk.filter fun x => p ≤ x.pos) = [] := by
      apply filter_eq_nil_iff.mpr
      intro x hx
      simpa using lt_of_lt_of_le (contents.mem_walk_lt hx) (le_of_not_gt hend)
    rw [hnone, readdirFrom, if_pos (le_of_not_gt hend)]
    obtain rfl : p = d.endPos contents.size := le_antisymm hp (le_of_not_gt hend)
    rfl

/-- A callback that refuses nothing gets all entries of a well-formed directory, once
each, from a call that begins at position 0. The call leaves the position at the end of
the directory, and a further call passes nothing. -/
theorem ntfsReaddir_complete (contents : DirContents d) (haccept : ∀ s x, (filldir s x).2 = 0)
    (s : σ) :
    ntfsReaddir filldir d ⟨0, s⟩ =
        .ok ⟨d.endPos contents.size, contents.walk.foldl (fun s x => (filldir s x).1) s⟩ ∧
      ∀ s', ntfsReaddir filldir d ⟨d.endPos contents.size, s'⟩ =
        .ok ⟨d.endPos contents.size, s'⟩ := by
  constructor
  · have hall : (contents.walk.filter fun x => 0 ≤ x.pos) = contents.walk :=
      filter_eq_self.mpr fun x _ => by simp
    rw [ntfsReaddir_eq_answer contents (Nat.zero_le _)
      (fun _ => foundAt_dots contents (Nat.zero_le 2)), hall, feed_all filldir haccept]
    rfl
  · intro s'
    rw [contents.ntfsReaddir_eq, readdirFrom, if_pos (le_refl _)]

/-! ## Several calls -/

def afterCall : WalkResult σ → DirWalk σ
  | .ok w => w
  | .error (_, w) => w

def readdirRounds (filldir : σ → Dirent → σ × Int) (d : DirInode) : Nat → DirWalk σ → DirWalk σ
  | 0, w => w
  | n + 1, w => readdirRounds filldir d n (afterCall (ntfsReaddir filldir d w))

/-- Each call passes what is left of one walk, the entry that was refused first. -/
def DirContents.Resumes (contents : DirContents d) (filldir : σ → Dirent → σ × Int) (s : σ) :
    Prop :=
  ∀ n, ntfsReaddir filldir d (readdirRounds filldir d n ⟨0, s⟩) =
    readdirAnswer (d.endPos contents.size)
      (feed filldir (rounds filldir n (s, contents.walk)).1 (rounds filldir n (s, contents.walk)).2)

/-- The entry that was refused last and the entries behind it up to the next one that is
refused are found again. -/
def DirContents.FoundAgain (contents : DirContents d) (filldir : σ → Dirent → σ × Int)
    (left : σ × List Dirent) : Prop :=
  ∀ x rest, left.2 = x :: rest → d.vol.mftRecordSize ≤ x.pos →
    ∀ a, contents.allocation = some a →
      a.Found filldir left.1 (contents.blockOf x.pos % 8) (contents.blockOf x.pos) x.pos

variable {contents}

/-- An entry in the index allocation is in a block that the bitmap has. -/
lemma DirContents.blockOf_lt (hx : x ∈ contents.walk) (hmft : d.vol.mftRecordSize ≤ x.pos)
    (ha : contents.allocation = some a) : contents.blockOf x.pos < 8 * a.bmp.data.size := by
  have hge := contents.mftRecordSize_ge
  rcases mem_append.mp ((contents.mem_walk hx).resolve_left (by omega)) with hx | hx
  · exact absurd (contents.mem_rootDirents hx).2 (not_lt.mpr hmft)
  · rw [allocationDirents, ha] at hx
    obtain ⟨k, _, hlt, hused, hx⟩ := contents.mem_direntsFrom a hx
    have hnext := (contents.mem_blockDirents a hlt hused hx).2.1
    have hblock : contents.blockOf x.pos < k + 1 := by
      rw [blockOf, Nat.div_lt_iff_lt_mul contents.blockSize_pos]
      rw [AllocationContents.blockBase] at hnext
      omega
    exact lt_of_lt_of_le hblock hlt

/-- The position and the callback after some calls, with what they have left of the walk. -/
structure Follows (contents : DirContents d) (w : DirWalk σ) (left : σ × List Dirent) : Prop where
  state : w.dirent = left.1
  done : left.2 = [] → w.pos = d.endPos contents.size
  refused : ∀ x rest, left.2 = x :: rest → w.pos = x.pos
  suffix : left.2 <:+ contents.walk

lemma follows_start (contents : DirContents d) (s : σ) :
    Follows contents ⟨0, s⟩ (s, contents.walk) where
  state := rfl
  done := by
    intro hnil
    cases hnil
  refused := by
    intro x rest h
    cases h
    rfl
  suffix := suffix_refl _

lemma follows_answer {left : σ × List Dirent} (hsuffix : left.2 <:+ contents.walk) :
    Follows contents
      (afterCall (readdirAnswer (d.endPos contents.size) (feed filldir left.1 left.2)))
      (feed filldir left.1 left.2) := by
  have hrest := (feed_suffix filldir left.1 left.2).trans hsuffix
  generalize feed filldir left.1 left.2 = fed at hrest
  obtain ⟨s, _ | ⟨x, rest⟩⟩ := fed
  · exact ⟨rfl, fun _ => rfl, fun x rest h => (by cases h), hrest⟩
  · refine ⟨rfl, fun h => (by cases h), fun y more h => ?_, hrest⟩
    cases h
    rfl

lemma Follows.call (h : Follows contents w left) (hfound : contents.FoundAgain filldir left) :
    ntfsReaddir filldir d w =
      readdirAnswer (d.endPos contents.size) (feed filldir left.1 left.2) := by
  obtain ⟨p, s⟩ := w
  obtain rfl : s = left.1 := h.state
  cases hleft : left.2 with
  | nil =>
    obtain rfl : p = d.endPos contents.size := h.done hleft
    rw [contents.ntfsReaddir_eq, readdirFrom, if_pos (le_refl _)]
    rfl
  | cons x rest =>
    obtain rfl : p = x.pos := h.refused x rest hleft
    have hsuffix := h.suffix
    rw [hleft] at hsuffix
    have hx : x ∈ contents.walk := hsuffix.subset mem_cons_self
    rw [ntfsReaddir_eq_answer contents (le_of_lt (contents.mem_walk_lt hx)),
      filter_eq_of_suffix contents.walk_ascending hsuffix]
    intro _ hmft a ha
    exact ⟨contents.blockOf_lt hx hmft ha, hfound x rest hleft hmft a ha⟩

/-! ## What a call offers from any position on -/

section Offers

variable {refuses : List Dirent → Dirent → Int} {P : Dirent → Prop}

/-- Only entries with a property have been offered, and one at least if it was refused. -/
def Offers (P : Dirent → Prop) (offered : List Dirent) (r : WalkResult (List Dirent)) : Prop :=
  ∃ more, (afterCall r).dirent = offered ++ more ∧ (∀ x ∈ more, P x) ∧
    ∀ w, r = .error (.refused, w) → more ≠ []

lemma offers_ok (w : DirWalk (List Dirent)) : Offers P w.dirent (.ok w) :=
  ⟨[], (append_nil _).symm, fun x hx => (by cases hx), fun w' h => (by cases h)⟩

lemma offers_error {w : DirWalk (List Dirent)} (hstop : stop ≠ .refused) :
    Offers P w.dirent (.error (stop, w)) := by
  refine ⟨[], (append_nil _).symm, fun x hx => (by cases hx), fun w' h => ?_⟩
  cases h
  exact absurd rfl hstop

lemma Offers.bind {r : WalkResult (List Dirent)} (h : Offers P offered r)
    (hk : ∀ w, Offers P w.dirent (k w)) : Offers P offered (r.bind k) := by
  cases r with
  | error e => exact h
  | ok w =>
    obtain ⟨more, hw, hmore, -⟩ := h
    obtain ⟨more', hr, hmore', hrefused⟩ := hk w
    refine ⟨more ++ more', ?_, ?_, ?_⟩
    · rw [← append_assoc, ← hw]
      exact hr
    · intro x hx
      exact (mem_append.mp hx).elim (hmore x) (hmore' x)
    · intro w' hw' hnil
      exact hrefused w' hw' (append_eq_nil_iff.mp hnil).2

lemma Offers.mono {Q : Dirent → Prop} (h : Offers P offered r) (hPQ : ∀ x, P x → Q x) :
    Offers Q offered r := by
  obtain ⟨more, hr, hmore, hrefused⟩ := h
  exact ⟨more, hr, fun x hx => hPQ x (hmore x hx), hrefused⟩

lemma ntfsFilldir_offers (hP : P (d.entryDirent pos entry)) (w : DirWalk (List Dirent)) :
    Offers P w.dirent (ntfsFilldir (recording refuses) d pos entry w) := by
  rw [ntfsFilldir]
  split_ifs
  · exact offers_ok { w with pos := pos }
  · refine ⟨[d.entryDirent pos entry], ?_, fun x hx => mem_singleton.mp hx ▸ hP,
      fun w' _ hnil => by cases hnil⟩
    rw [callFilldir]
    dsimp only
    split_ifs <;> rfl
  · exact @offers_error _ _ { w with pos := pos } (by decide)
  · exact offers_ok { w with pos := pos }

lemma entryLoop_offers {fill : Nat → DirIndexEntry → DirWalk (List Dirent) →
      WalkResult (List Dirent)}
    (hfill : ∀ off entry w, off + 16 ≤ indexEnd → Offers P w.dirent (fill off entry w))
    (w : DirWalk (List Dirent)) :
    Offers P w.dirent (entryLoop fill index indexEnd skip fuel off w) := by
  induction fuel generalizing off w with
  | zero => exact offers_error (by decide)
  | succ fuel ih =>
    rw [entryLoop]
    split_ifs with hbound
    · exact offers_error (by decide)
    · exact offers_ok w
    · exact offers_error (by decide)
    · exact ih w
    · exact (hfill off _ w (by omega)).bind fun w => ih w

lemma entryLoop_ok {fill : Nat → DirIndexEntry → DirWalk σ → WalkResult σ}
    (h : entryLoop fill index indexEnd skip fuel off w = .ok w') :
    ∃ entries, EntryChain index indexEnd off entries := by
  induction fuel generalizing off w with
  | zero => cases h
  | succ fuel ih =>
    rw [entryLoop] at h
    split_ifs at h with hbound hend hlength hskip
    · exact ⟨[], .last (by omega) (by omega) hend⟩
    · obtain ⟨entries, hchain⟩ := ih h
      exact ⟨_, .cons (by omega) (by omega) (eq_false_of_ne_true hend)
        (Nat.pos_of_ne_zero hlength) hchain⟩
    · cases hfill : fill off (index.entry off) w with
      | error e =>
        rw [hfill] at h
        cases h
      | ok v =>
        rw [hfill] at h
        obtain ⟨entries, hchain⟩ := ih h
        exact ⟨_, .cons (by omega) (by omega) (eq_false_of_ne_true hend)
          (Nat.pos_of_ne_zero hlength) hchain⟩

section

variable (contents) (a : AllocationContents d contents.root)
include contents

lemma iaStart_eq (hblock : iaPos / contents.root.indexBlockSize = b) :
    iaPos - iaPos % contents.root.indexBlockSize = b * contents.root.indexBlockSize := by
  have hdiv := Nat.div_add_mod' iaPos contents.root.indexBlockSize
  rw [hblock] at hdiv
  omega

variable (refuses) in
/-- The entries that are offered from a block have positions in it, whatever it contains. -/
lemma blockEntries_offers (hblock : iaPos / contents.root.indexBlockSize = b)
    (w : DirWalk (List Dirent)) :
    Offers (fun x => a.blockBase b ≤ x.pos ∧ x.pos < a.blockBase (b + 1)) w.dirent
      (blockEntries (recording refuses) d contents.root a.ia b iaPos w) := by
  rw [blockEntries]
  cases a.ia.block (b <<< contents.root.blockBits) with
  | none => exact offers_error (by decide)
  | some block =>
    simp only [iaStart_eq contents hblock]
    split_ifs with hvcn hallocated hfits
    · exact offers_error (by decide)
    · exact offers_error (by decide)
    · exact offers_error (by decide)
    · apply entryLoop_offers
      intro off entry w hoff
      apply ntfsFilldir_offers
      have hpos : (d.entryDirent (allocationPos d.vol (contents.root.vcnBits d.vol)
          block.indexBlockVcn off) entry).pos = off + a.blockBase b :=
        blockPos_eq contents a (not_not.mp hvcn) off
      rw [hpos, AllocationContents.blockBase, AllocationContents.blockBase, Nat.succ_mul]
      omega

lemma blockEntries_ok (hblock : iaPos / contents.root.indexBlockSize = b)
    (h : blockEntries filldir d contents.root a.ia b iaPos w = .ok w') :
    ∃ block entries, BlockReads d contents.root a.ia b block entries := by
  rw [blockEntries, contents.shiftLeft_blockBits] at h
  cases hread : a.ia.block (b * contents.root.indexBlockSize) with
  | none =>
    rw [hread] at h
    cases h
  | some block =>
    rw [hread] at h
    simp only [iaStart_eq contents hblock] at h
    split_ifs at h with hvcn hallocated hfits
    obtain ⟨entries, hchain⟩ := entryLoop_ok h
    exact ⟨block, entries, hread, not_not.mp hvcn, not_not.mp hallocated, not_lt.mp hfits, hchain⟩

variable (refuses) in
lemma blockLoop_offers (hblock : iaPos / contents.root.indexBlockSize = c.pos)
    (w : DirWalk (List Dirent)) :
    Offers (fun x => a.blockBase c.pos ≤ x.pos) w.dirent
      (blockLoop (recording refuses) d contents.root a.ia a.bmp fuel c iaPos w) := by
  induction fuel generalizing c iaPos w with
  | zero => exact offers_error (by decide)
  | succ fuel ih =>
    rw [blockLoop]
    refine Offers.bind ?_ fun w => ?_
    · split_ifs
      · exact (blockEntries_offers contents refuses a hblock w).mono fun x hx => hx.1
      · exact offers_ok w
    · rcases hnext : c.next a.bmp with c' | _ | _
      · have hle : c.pos ≤ c'.pos := by
          rw [c.next_pos hnext]
          exact Nat.le_succ _
        exact (ih (blockStart_div contents) w).mono fun x hx =>
          (contents.blockBase_mono a hle).trans hx
      · exact offers_ok w
      · exact offers_error (by decide)

end

end Offers

/-! ## What a call has found that went on rightly -/

lemma Feeds.dirent (h : Feeds r fed) : (afterCall r).dirent = fed.1 := by
  cases hleft : fed.2 with
  | nil =>
    obtain ⟨p, rfl⟩ := h.done hleft
    rfl
  | cons x rest =>
    rw [h.refused x rest hleft]
    rfl

lemma Feeds.stop_eq {stop : ReaddirStop} (h : Feeds (.error (stop, w)) fed) :
    stop = .refused := by
  cases hleft : fed.2 with
  | nil =>
    obtain ⟨p, hr⟩ := h.done hleft
    cases hr
  | cons x rest =>
    have hr := h.refused x rest hleft
    cases hr
    rfl

section Necessary

variable (contents) {a : AllocationContents d contents.root}
  {refuses : List Dirent → Dirent → Int} {next : DirWalk (List Dirent) → WalkResult (List Dirent)}

section

variable (hc : BitmapCursor.Buffers a.bmp shift c) (hpos : c.pos < 8 * a.bmp.data.size)
  (hblock : iaPos / contents.root.indexBlockSize = c.pos)
include hc hpos hblock

/-- A walk that passes over a block in use has not offered its entries. -/
lemma matches_of_used (hused : a.bmp.data.bit c.pos = true)
    (hnext : ∀ w, Offers (fun x => a.blockBase (c.pos + 1) ≤ x.pos) w.dirent (next w))
    (h : Feeds ((if c.used then blockEntries (recording refuses) d contents.root a.ia c.pos iaPos w
      else .ok w).bind next)
      (feed (recording refuses) w.dirent (a.passedFrom c.pos (iaPos + d.vol.mftRecordSize)))) :
    a.Matches shift (iaPos + d.vol.mftRecordSize) c.pos := by
  rw [AllocationContents.Matches, hused, if_pos rfl]
  by_contra hnot
  obtain ⟨htested, hsome⟩ := not_or.mp hnot
  have hskipped : c.used = false := by
    rw [hc.used]
    exact eq_false_of_ne_true htested
  rw [hskipped, if_neg Bool.false_ne_true] at h
  obtain ⟨y, ys, hy⟩ := exists_cons_of_ne_nil hsome
  have hpassed := passedFrom_succ contents hpos (pos_le_blockBase contents a hblock)
  rw [AllocationContents.blockPassed, hused, if_pos rfl, hy] at hpassed
  obtain ⟨more, hfed, hinitial, hnonempty⟩ := feed_recording refuses w.dirent
    (a.passedFrom c.pos (iaPos + d.vol.mftRecordSize))
  obtain ⟨more', hoffered, hbehind, -⟩ := hnext w
  obtain rfl : more' = more := append_cancel_left (hoffered.symm.trans (h.dirent.trans hfed))
  have hfirst : y ∈ more' := by
    rw [hpassed] at hinitial hnonempty
    cases hmore : more' with
    | nil => cases hnonempty hmore
    | cons z zs =>
      rw [hmore] at hinitial
      obtain ⟨rfl, -⟩ := cons_prefix_cons.mp hinitial
      exact mem_cons_self
  have hmem : y ∈ a.blockDirents c.pos := (mem_filter.mp (hy ▸ mem_cons_self)).1
  exact absurd (hbehind y hfirst) (not_le.mpr (contents.mem_blockDirents a hpos hused hmem).2.1)

/-- A walk through a block that is not in use has offered nothing in it. -/
lemma matches_of_unused (hused : a.bmp.data.bit c.pos = false)
    (hnext : ∀ w, Offers (fun x => a.blockBase (c.pos + 1) ≤ x.pos) w.dirent (next w))
    (h : Feeds ((if c.used then blockEntries (recording refuses) d contents.root a.ia c.pos iaPos w
      else .ok w).bind next)
      (feed (recording refuses) w.dirent (a.passedFrom c.pos (iaPos + d.vol.mftRecordSize)))) :
    a.Matches shift (iaPos + d.vol.mftRecordSize) c.pos := by
  rw [AllocationContents.Matches, hused, if_neg Bool.false_ne_true]
  by_contra hnot
  obtain ⟨htested, hblank⟩ := not_or.mp hnot
  have hvisited : c.used = true := by
    rw [hc.used]
    exact eq_true_of_ne_false htested
  have hpassed := passedFrom_succ contents hpos (pos_le_blockBase contents a hblock)
  rw [AllocationContents.blockPassed, hused, if_neg Bool.false_ne_true, filter_nil,
    nil_append] at hpassed
  rw [hvisited, if_pos rfl, hpassed] at h
  obtain ⟨more, hfed, hinitial, -⟩ := feed_recording refuses w.dirent
    (a.passedFrom (c.pos + 1) (a.blockBase (c.pos + 1)))
  have hdirent := h.dirent.trans hfed
  have hbehind : ∀ x ∈ more, a.blockBase (c.pos + 1) ≤ x.pos := fun x hx =>
    mem_passedFrom contents (hinitial.subset hx)
  obtain ⟨inside, hinside, hbounds, hrefused⟩ :=
    blockEntries_offers contents refuses a hblock w
  cases hentries : blockEntries (recording refuses) d contents.root a.ia c.pos iaPos w with
  | error stopped =>
    obtain ⟨stop, w'⟩ := stopped
    rw [hentries] at h hinside hrefused hdirent
    obtain rfl := h.stop_eq
    have hmore : inside = more := append_cancel_left (hinside.symm.trans hdirent)
    obtain ⟨x, xs, hx⟩ := exists_cons_of_ne_nil (hrefused w' rfl)
    have hxmem : x ∈ inside := hx ▸ mem_cons_self
    exact absurd (hbounds x hxmem).2 (not_lt.mpr (hbehind x (hmore ▸ hxmem)))
  | ok w' =>
    rw [hentries] at h hinside hdirent
    obtain ⟨after, hafter, -, -⟩ := hnext w'
    have hall : w.dirent ++ (inside ++ after) = w.dirent ++ more := by
      rw [← append_assoc, ← hinside]
      exact hafter.symm.trans hdirent
    have hmore := append_cancel_left hall
    obtain ⟨block, entries, holds⟩ := blockEntries_ok contents a hblock hentries
    apply hblank
    refine ⟨block, entries, holds, ?_⟩
    have hfeeds := blockEntries_feeds (recording refuses) contents a holds hblock w
    rw [hentries] at hfeeds
    obtain ⟨more', hfed', hinitial', hnonempty⟩ := feed_recording refuses w.dirent
      ((nodeDirents d (a.blockBase c.pos) entries).filter
        fun x => iaPos + d.vol.mftRecordSize ≤ x.pos)
    obtain rfl : more' = inside :=
      append_cancel_left (hfed'.symm.trans (hfeeds.dirent.symm.trans hinside))
    apply hnonempty
    cases hcases : more' with
    | nil => rfl
    | cons x xs =>
      have hxmem : x ∈ more' := hcases ▸ mem_cons_self
      exact absurd (hbounds x hxmem).2
        (not_lt.mpr (hbehind x (hmore ▸ mem_append_left _ hxmem)))

lemma matches_of_feeds
    (hnext : ∀ w, Offers (fun x => a.blockBase (c.pos + 1) ≤ x.pos) w.dirent (next w))
    (h : Feeds ((if c.used then blockEntries (recording refuses) d contents.root a.ia c.pos iaPos w
      else .ok w).bind next)
      (feed (recording refuses) w.dirent (a.passedFrom c.pos (iaPos + d.vol.mftRecordSize)))) :
    a.Matches shift (iaPos + d.vol.mftRecordSize) c.pos := by
  cases hused : a.bmp.data.bit c.pos with
  | true => exact matches_of_used contents hc hpos hblock hused hnext h
  | false => exact matches_of_unused contents hc hpos hblock hused hnext h

end

/-- The loop over the blocks has found every block that it reached. -/
lemma found_of_feeds {shift : Nat} (hshift : shift < 8) {c : BitmapCursor}
    (hc : c.Buffers a.bmp shift) (hpos : c.pos < 8 * a.bmp.data.size)
    {iaPos : Nat} (hblock : iaPos / contents.root.indexBlockSize = c.pos) {fuel : Nat}
    (hfuel : 8 * a.bmp.data.size ≤ fuel + c.pos) (w : DirWalk (List Dirent))
    (h : Feeds (blockLoop (recording refuses) d contents.root a.ia a.bmp fuel c iaPos w)
      (feed (recording refuses) w.dirent
        (a.passedFrom c.pos (iaPos + d.vol.mftRecordSize)))) :
    a.Found (recording refuses) w.dirent shift c.pos (iaPos + d.vol.mftRecordSize) := by
  induction fuel generalizing c iaPos w with
  | zero => omega
  | succ fuel ih =>
    have hbase := pos_le_blockBase contents a hblock
    rw [blockLoop] at h
    have hmatch : a.Matches shift (iaPos + d.vol.mftRecordSize) c.pos := by
      refine matches_of_feeds contents hc hpos hblock (fun w => ?_) h
      rcases hnext : c.next a.bmp with c' | _ | _
      · rw [← c.next_pos hnext]
        exact blockLoop_offers contents refuses a (blockStart_div contents) w
      · exact offers_ok w
      · exact offers_error (by decide)
    have hfirst := firstBlock_feeds (recording refuses) contents hc hpos hblock hmatch w
    cases hdone : (feed (recording refuses) w.dirent
        (a.blockPassed c.pos (iaPos + d.vol.mftRecordSize))).2 with
    | cons x rest =>
      exact found_of_refused contents hpos hbase hmatch (by rw [hdone]; exact cons_ne_nil x rest)
    | nil =>
      obtain ⟨p, hr⟩ := hfirst.done hdone
      rw [hr, passedFrom_succ contents hpos hbase, feed_append, if_pos hdone] at h
      refine (found_succ_iff contents hpos hbase hdone).mpr ⟨hmatch, ?_⟩
      rcases hc.next a.reads hshift with ⟨hend, hnext⟩ | ⟨hlt, c', hnext, hpos', hc'⟩
      · intro k hk hlt
        omega
      · simp only [Except.bind, hnext, ← hpos'] at h
        generalize (feed (recording refuses) w.dirent
          (a.blockPassed c.pos (iaPos + d.vol.mftRecordSize))).1 = s at h ⊢
        have hself := blockStart_pos contents a (b := c'.pos)
        have hrest := ih hc' (hpos' ▸ hlt) (blockStart_div contents) (by omega) ⟨p, s⟩
        rw [hself] at hrest
        rw [← hpos']
        exact hrest h

end Necessary

lemma feeds_of_map_answer {r : WalkResult σ}
    (h : (r.map fun w => { w with pos := p }) = readdirAnswer p fed) : Feeds r fed := by
  obtain ⟨s, _ | ⟨x, rest⟩⟩ := fed
  · cases r with
    | error e => cases h
    | ok w =>
      refine ⟨fun _ => ⟨w.pos, ?_⟩, fun x rest hcons => by cases hcons⟩
      cases h
      rfl
  · cases r with
    | ok w => cases h
    | error e =>
      cases h
      refine ⟨fun hnil => (by cases hnil), fun y more hcons => ?_⟩
      cases hcons
      rfl

lemma DirContents.filter_walk_allocation (contents : DirContents d)
    (hmft : d.vol.mftRecordSize ≤ p) :
    (contents.walk.filter fun x => p ≤ x.pos) =
      contents.allocationDirents.filter fun x => p ≤ x.pos := by
  have hge := contents.mftRecordSize_ge
  rw [contents.filter_walk, if_neg (by omega), if_neg (by omega), nil_append, nil_append,
    indexDirents, filter_append, rootDirents_before contents hmft, nil_append]

/-- A call that goes on rightly has found the blocks. -/
lemma Follows.foundAgain {refuses : List Dirent → Dirent → Int} (h : Follows contents w left)
    (hcall : ntfsReaddir (recording refuses) d w =
      readdirAnswer (d.endPos contents.size) (feed (recording refuses) left.1 left.2)) :
    contents.FoundAgain (recording refuses) left := by
  intro x rest hleft hmft a ha
  obtain ⟨p, s⟩ := w
  obtain rfl : s = left.1 := h.state
  obtain rfl : p = x.pos := h.refused x rest hleft
  have hsuffix := h.suffix
  rw [hleft] at hsuffix hcall
  have hx : x ∈ contents.walk := hsuffix.subset mem_cons_self
  have hb := contents.blockOf_lt hx hmft ha
  have hge := contents.mftRecordSize_ge
  have hpassed : x :: rest = a.passedFrom (contents.blockOf x.pos) x.pos := by
    rw [← filter_eq_of_suffix contents.walk_ascending hsuffix,
      contents.filter_walk_allocation hmft,
      filter_allocationDirents contents ha hmft (le_of_lt hb)]
  have hsize : contents.size = a.ia.dataSize := by
    rw [size, ha]
    rfl
  -- the call begins in the index allocation
  rw [contents.ntfsReaddir_eq, readdirFrom, if_neg (not_le.mpr (contents.mem_walk_lt hx)),
    passDot_of_ne (by omega)] at hcall
  change (passDotDot (recording refuses) d ⟨x.pos, left.1⟩).bind _ = _ at hcall
  rw [passDotDot_of_ne (by omega)] at hcall
  change indexWalk (recording refuses) d contents.opened ⟨x.pos, left.1⟩ = _ at hcall
  rw [indexWalk, contents.root_eq, opened, ha] at hcall
  dsimp only [Option.map] at hcall
  rw [if_neg (blockSize_valid contents), if_pos hmft, ← hsize] at hcall
  have hfeeds := feeds_of_map_answer hcall
  obtain ⟨c, hcpos, hc, hloop⟩ :=
    allocationLoop_eq (recording refuses) contents a (w := ⟨x.pos, left.1⟩) rfl hb
  have hblock : (x.pos - d.vol.mftRecordSize) / contents.root.indexBlockSize = c.pos := hcpos.symm
  have hback : x.pos - d.vol.mftRecordSize + d.vol.mftRecordSize = x.pos := Nat.sub_add_cancel hmft
  rw [hloop, hpassed] at hfeeds
  change c.pos = contents.blockOf x.pos at hcpos
  change BitmapCursor.Buffers a.bmp (contents.blockOf x.pos % 8) c at hc
  rw [← hcpos] at hb hc hfeeds ⊢
  have hfound := found_of_feeds contents (Nat.mod_lt _ (by decide)) hc hb hblock
    (Nat.le_add_right ..) ⟨x.pos, left.1⟩ (by rw [hback]; exact hfeeds)
  rwa [hback] at hfound

lemma readdirRounds_succ (n : Nat) (w : DirWalk σ) :
    readdirRounds filldir d (n + 1) w =
      afterCall (ntfsReaddir filldir d (readdirRounds filldir d n w)) := by
  induction n generalizing w with
  | zero => rfl
  | succ n ih => exact ih (afterCall (ntfsReaddir filldir d w))

/-- Calls that went on rightly have left the position for what is left of the walk. -/
lemma follows_rounds (contents : DirContents d)
    (hcalls : ∀ m < n, ntfsReaddir filldir d (readdirRounds filldir d m ⟨0, s⟩) =
      readdirAnswer (d.endPos contents.size) (feed filldir
        (rounds filldir m (s, contents.walk)).1 (rounds filldir m (s, contents.walk)).2)) :
    Follows contents (readdirRounds filldir d n ⟨0, s⟩) (rounds filldir n (s, contents.walk)) := by
  induction n with
  | zero => exact follows_start contents s
  | succ n ih =>
    rw [readdirRounds_succ, rounds_succ, hcalls n (Nat.lt_succ_self n)]
    exact follows_answer (ih fun m hm => hcalls m (Nat.lt_succ_of_lt hm)).suffix

/-- Resumed calls offer the entries of one walk, the refused ones again first, just if after
each refusal in an index block all blocks are found again up to the next refusal: a block
in use that has entries is looked into, and a block that is not in use is left out or
offers nothing, though the bits that are tested begin with the byte of the block. -/
theorem ntfsReaddir_resumes_iff (contents : DirContents d)
    (refuses : List Dirent → Dirent → Int) :
    contents.Resumes (recording refuses) [] ↔
      ∀ n, contents.FoundAgain (recording refuses)
        (rounds (recording refuses) n ([], contents.walk)) := by
  constructor
  · intro hresumes n
    exact (follows_rounds contents fun m _ => hresumes m).foundAgain (hresumes n)
  · intro hfound n
    induction n using Nat.strong_induction_on with
    | _ n ih => exact (follows_rounds contents ih).call (hfound n)

/-! ## A directory whose first index block is free -/

def endEntry : DirIndexEntry := ⟨16, 0, true, 0, 0, [], 0⟩

def fileEntry : DirIndexEntry := ⟨88, 68, false, 64, 0x20, [97], 1⟩

def secondBlock : DirIndexBlock where
  indexBlockVcn := 1
  index := ⟨40, 144, 4072, fun off => if off = 64 then fileEntry else endEntry⟩

def secondBit : DirBitmap where
  data := ⟨8, fun k => if k = 0 then 2 else 0⟩
  reads := fun _ _ => true

def sparseDirectory : DirInode where
  vol := ⟨1024, 4096, 12, true, false, true, none, 0⟩
  isDirectory := true
  selfRef := 40
  parentRef := some 5
  root := some ⟨4096, ⟨16, 32, 32, fun _ => endEntry⟩⟩
  allocation := .found ⟨8192, fun pos => if pos = 4096 then some secondBlock else none⟩
  bitmap := some secondBit
  dirEntryType := fun _ _ => .unknown
  malloc := fun _ => true

def sparseContents : DirContents sparseDirectory where
  directory := rfl
  memory := fun _ => rfl
  parent := 5
  parent_eq := rfl
  clusters := rfl
  root := ⟨4096, ⟨16, 32, 32, fun _ => endEntry⟩⟩
  root_eq := rfl
  bits := 12
  bits_ge := by decide
  blockSize_eq := rfl
  rootEntries := []
  rootFits := by decide
  rootChain := .last (by decide) (by decide) rfl
  allocation := some
    { ia := ⟨8192, fun pos => if pos = 4096 then some secondBlock else none⟩
      bmp := secondBit
      bitmap_eq := rfl
      reads := fun _ _ => rfl
      nonempty := by decide
      entries := fun _ => [(64, fileEntry)]
      holds := by
        have hbits : ∀ b < 64, secondBit.data.bit b = true → b = 1 := by decide
        intro b hb hused
        obtain rfl := hbits b hb hused
        exact ⟨secondBlock, ⟨rfl, by decide, rfl, by decide,
          .cons (by decide) (by decide) rfl (by decide) (.last (by decide) (by decide) rfl)⟩,
          by decide⟩ }
  allocation_eq := rfl

def countEntries (n : Nat) (_ : Dirent) : Nat × Int := (n + 1, 0)

theorem ntfsReaddir_complete_sparse :
    ntfsReaddir countEntries sparseDirectory ⟨0, 0⟩ = .ok ⟨9216, 3⟩ :=
  (ntfsReaddir_complete sparseContents (fun _ _ => rfl) 0).1

/-- Refuse the third entry that is offered. -/
def refuseThird (offered : List Dirent) (_ : Dirent) : Int := if offered.length = 2 then 1 else 0

/-- The walk stops at the file in the second block. The call that resumes it tests the
bit of the first block instead, leaves the second block out and fails at the third. -/
theorem ntfsReaddir_lost :
    ntfsReaddir (recording refuseThird) sparseDirectory ⟨0, []⟩ =
        .error (.refused, ⟨5184, sparseContents.walk⟩) ∧
      ntfsReaddir (recording refuseThird) sparseDirectory ⟨5184, sparseContents.walk⟩ =
        .error (.failed, ⟨5184, sparseContents.walk⟩) ∧
      ¬ sparseContents.Resumes (recording refuseThird) [] := by
  refine ⟨by decide +kernel, by decide +kernel, ?_⟩
  intro hresumes
  have hcall := hresumes 1
  revert hcall
  decide +kernel

/-- The same with the file in the first block, whose bit is the first of its byte. -/
def denseDirectory : DirInode :=
  { sparseDirectory with
    allocation := .found
      ⟨4096, fun pos => if pos = 0 then some { secondBlock with indexBlockVcn := 0 } else none⟩
    bitmap := some ⟨⟨8, fun k => if k = 0 then 1 else 0⟩, fun _ _ => true⟩ }

example :
    (readdirRounds (recording refuseThird) denseDirectory 2 ⟨0, []⟩).dirent.map (·.pos) =
      [0, 1, 1088, 1088] := by
  decide +kernel

end NtfsDxe
