import NtfsDxe.Bitmap.SetRunSpec
import NtfsDxe.Cluster.Search

/-! # Soundness of the cluster allocator

What the search has taken is either returned as a runlist or freed again. Runs
are freed through byte positions that are kept in an `int`, so a volume with
free clusters from number `2 ^ 34` on can lose clusters when it runs out of
space. An allocation that succeeds is sound on every volume.
-/

namespace NtfsDxe

open Foundation Bits List AllocVolume

/-! ## Freeing the runs -/

@[simp] lemma AllocVolume.updateFullStatus_lcnbmp (v : AllocVolume) (lcn : Int) :
    (v.updateFullStatus lcn).lcnbmp = v.lcnbmp := by
  unfold updateFullStatus
  dsimp only
  split
  · exact updateZonePos_lcnbmp
  · rfl

@[simp] lemma AllocVolume.updateFullStatus_freeClusters (v : AllocVolume) :
    (v.updateFullStatus lcn).freeClusters = v.freeClusters := by
  unfold updateFullStatus
  dsimp only
  split
  · exact updateZonePos_freeClusters
  · rfl

lemma runLcns_length : (runLcns e).length = e.length.toNat := by
  rw [runLcns, length_map, length_range]

/-- A run whose clusters are in the bitmap. -/
structure Clearable (size : Nat) (e : RunlistElement) : Prop where
  length_pos : 0 < e.length
  lcn_nonneg : 0 ≤ e.lcn
  in_bitmap : e.lcn + e.length ≤ 8 * size

/-- There is memory for clearing the run, and its byte positions fit into an `int`. -/
def Clears (hasMemory : Int → Bool) (e : RunlistElement) : Prop :=
  hasMemory e.lcn = true ∧ SetRunFits e.lcn.toNat e.length.toNat

variable {startVcn count : Int}

/-- The run as natural numbers. -/
lemma Clearable.bounds (he : Clearable size e) :
    (e.lcn.toNat : Int) = e.lcn ∧
      (((e.lcn.toNat + e.length.toNat : Nat) : Int) - e.lcn.toNat) = e.length ∧
      e.lcn.toNat + e.length.toNat ≤ 8 * size := by
  have hlength := he.length_pos
  have hlcn := he.lcn_nonneg
  have hbitmap := he.in_bitmap
  omega

lemma bitmapClearRun_spec (he : Clearable na.size e)
    (hfits : SetRunFits e.lcn.toNat e.length.toNat) :
    ∃ fuel na', (∀ n ≥ fuel, bitmapClearRun n true na e.lcn e.length = some (na', .ok ())) ∧
      na'.size = na.size ∧ ∀ k, na'.bit k = (na.bit k && decide (k ∉ runLcns e)) := by
  obtain ⟨hlcn, hlength, hstop⟩ := he.bounds
  rw [← Nat.add_sub_cancel_left (n := e.lcn.toNat) (m := e.length.toNat)] at hfits
  obtain ⟨fuel, na', hrun, hsize, hbits⟩ := bitmapSetBitsInRun_spec na
    (Nat.le_add_right e.lcn.toNat e.length.toNat) hstop hfits
  rw [hlength, hlcn] at hrun
  refine ⟨fuel, na', hrun, hsize, fun k => ?_⟩
  rw [hbits k, runTarget]
  by_cases hk : k ∈ runLcns e
  · have hin := mem_runLcns.mp hk
    rw [if_pos (by omega)]
    simp [hk]
  · have hout := mt mem_runLcns.mpr hk
    rw [if_neg (by omega)]
    simp [hk]

/-- The last cluster of a run that does not fit stays marked: the call fails, or no call
reaches the cluster. -/
lemma bitmapClearRun_missed (he : Clearable na.size e)
    (hfits : ¬SetRunFits e.lcn.toNat e.length.toNat)
    (h : bitmapClearRun fuel true na e.lcn e.length = some (na', r)) :
    ∃ k ∈ runLcns e, na'.bit k = na.bit k ∧ (r ≠ .ok () ∨ unreachedByte ≤ k / 8) := by
  obtain ⟨hlcn, hlength, hstop⟩ := he.bounds
  have hpos := he.length_pos
  rw [← Nat.add_sub_cancel_left (n := e.lcn.toNat) (m := e.length.toNat)] at hfits
  have hrun : bitmapSetBitsInRun fuel true na e.lcn.toNat
      ((e.lcn.toNat + e.length.toNat : Nat) - e.lcn.toNat) false = some (na', r) := by
    rw [hlength, hlcn]
    exact h
  refine ⟨e.lcn.toNat + e.length.toNat - 1, mem_runLcns.mpr (by omega), ?_⟩
  exact bitmapSetBitsInRun_missed (by omega) hstop hfits hrun

/-- Freeing a terminated list of runs clears their bits. -/
lemma freeRuns_spec (ht : t.length = 0) (hes : ∀ e ∈ es, Clearable v.lcnbmp.size e)
    (hclears : ∀ e ∈ es, Clears hasMemory e) (nrFreed : Int) :
    ∃ fuel v', (∀ n ≥ fuel, freeRuns n hasMemory (es ++ [t]) v nrFreed =
        some (v', nrFreed + (lcnsOf es).length, .ok ())) ∧
      v'.lcnbmp.size = v.lcnbmp.size ∧ v'.freeClusters = v.freeClusters ∧
      ∀ k, v'.lcnbmp.bit k = (v.lcnbmp.bit k && decide (k ∉ lcnsOf es)) := by
  induction es generalizing v nrFreed with
  | nil =>
    refine ⟨0, v, fun n _ => ?_, rfl, rfl, fun k => by simp⟩
    rw [nil_append, freeRuns, if_pos ht]
    simp
  | cons e es ih =>
    have he := hes e mem_cons_self
    have hlength := he.length_pos
    rw [← v.updateFullStatus_lcnbmp e.lcn] at he
    obtain ⟨⟨hmemory, hfits⟩, hclears'⟩ := forall_mem_cons.mp hclears
    obtain ⟨fuel, na', hclear, hsize, hbits⟩ := bitmapClearRun_spec he hfits
    rw [updateFullStatus_lcnbmp] at hsize hbits
    obtain ⟨fuel', v', hrest, hsize', hfree', hbits'⟩ :=
      ih (v := { v.updateFullStatus e.lcn with lcnbmp := na' })
        (fun e' he' => by
          rw [hsize]
          exact hes e' (mem_cons_of_mem e he')) hclears' (nrFreed + e.length)
    refine ⟨max fuel fuel', v', fun n hn => ?_, hsize'.trans hsize, ?_, fun k => ?_⟩
    · rw [cons_append, freeRuns, if_neg (by omega), if_pos he.lcn_nonneg, hmemory]
      dsimp only
      rw [hclear n (by omega)]
      dsimp only
      rw [hrest n (by omega), lcnsOf_cons, length_append, runLcns_length]
      push_cast
      rw [Int.toNat_of_nonneg (le_of_lt hlength), add_assoc]
    · rw [hfree']
      exact v.updateFullStatus_freeClusters
    · rw [hbits' k]
      rw [hbits k]
      by_cases hrun : k ∈ runLcns e <;> by_cases hrest' : k ∈ lcnsOf es <;> simp [hrun]

/-- What the first run of the list does. -/
lemma freeRuns_cons (hlength : e.length ≠ 0) (hlcn : 0 ≤ e.lcn)
    (h : freeRuns fuel hasMemory (e :: rest) v nrFreed = some (v', r)) :
    ∃ na r', bitmapClearRun fuel (hasMemory e.lcn) v.lcnbmp e.lcn e.length = some (na, r') ∧
      ((r' ≠ .ok () ∧ v'.lcnbmp = na) ∨
        (r' = .ok () ∧ freeRuns fuel hasMemory rest { v.updateFullStatus e.lcn with lcnbmp := na }
          (nrFreed + e.length) = some (v', r))) := by
  rw [freeRuns, if_neg hlength, if_pos hlcn] at h
  dsimp only at h
  rw [updateFullStatus_lcnbmp] at h
  split at h
  · cases h
  · next hclear =>
    cases h
    exact ⟨_, _, hclear, .inl ⟨(fun hok => by cases hok), rfl⟩⟩
  · next hclear => exact ⟨_, _, hclear, .inr ⟨rfl, h⟩⟩

/-- No freed run reaches the bytes behind the positions of an `int`. -/
lemma freeRuns_frame (h : freeRuns fuel hasMemory rl v nrFreed = some (v', r))
    (hk : unreachedByte ≤ k / 8) : v'.lcnbmp.bit k = v.lcnbmp.bit k := by
  induction rl generalizing v nrFreed with
  | nil =>
    cases h
    rfl
  | cons e rest ih =>
    by_cases hlength : e.length = 0
    · rw [freeRuns, if_pos hlength] at h
      cases h
      rfl
    by_cases hlcn : 0 ≤ e.lcn
    · obtain ⟨na, r', hclear, hrest⟩ := freeRuns_cons hlength hlcn h
      have hkept : na.bit k = v.lcnbmp.bit k := by
        rw [AttrData.bit, AttrData.bit, bitmapSetBitsInRun_frame hclear hk]
      rcases hrest with ⟨_, rfl⟩ | ⟨_, hrest⟩
      · exact hkept
      · exact (ih hrest).trans hkept
    · rw [freeRuns, if_neg hlength, if_neg hlcn] at h
      exact ih h

/-- If no bit of the runs is left, each of them could be cleared. -/
lemma freeRuns_clears (hes : ∀ e ∈ es, Clearable v.lcnbmp.size e) (hnodup : (lcnsOf es).Nodup)
    (hset : ∀ k ∈ lcnsOf es, v.lcnbmp.bit k = true)
    (h : freeRuns fuel hasMemory (es ++ [t]) v nrFreed = some (v', r))
    (hcleared : ∀ k ∈ lcnsOf es, v'.lcnbmp.bit k = false) : ∀ e ∈ es, Clears hasMemory e := by
  induction es generalizing v nrFreed with
  | nil => exact fun e he => by cases he
  | cons e es ih =>
    have he := hes e mem_cons_self
    have hlength := he.length_pos
    have hnonneg := he.lcn_nonneg
    rw [lcnsOf_cons] at hnodup hset hcleared
    obtain ⟨_, hnodup', hdisjoint⟩ := nodup_append'.mp hnodup
    have hlost : ∀ k ∈ runLcns e, v'.lcnbmp.bit k ≠ v.lcnbmp.bit k := by
      intro k hk hsame
      rw [hset k (mem_append_left _ hk), hcleared k (mem_append_left _ hk)] at hsame
      cases hsame
    obtain ⟨na, r', hclear, hrest⟩ := freeRuns_cons hlength.ne' hnonneg h
    cases hmemory : hasMemory e.lcn with
    | false =>
      rw [hmemory, bitmapClearRun, bitmapSetBitsInRun, if_neg (by omega),
        if_neg Bool.false_ne_true] at hclear
      cases hclear
      obtain ⟨_, hna⟩ | ⟨hok, _⟩ := hrest
      · have hfirst : e.lcn.toNat ∈ runLcns e := mem_runLcns.mpr (by omega)
        exact absurd (by rw [hna]) (hlost _ hfirst)
      · cases hok
    | true =>
      rw [hmemory] at hclear
      by_cases hfits : SetRunFits e.lcn.toNat e.length.toNat
      · obtain ⟨fuel', na', hrun, hsize, hbits⟩ := bitmapClearRun_spec he hfits
        obtain ⟨rfl, rfl⟩ : na = na' ∧ r' = .ok () := by
          have hmax := bitmapSetBitsInRun_mono (le_max_left fuel fuel') hclear
          cases hmax.symm.trans (hrun _ (le_max_right fuel fuel'))
          exact ⟨rfl, rfl⟩
        obtain ⟨hno, _⟩ | ⟨_, hrest⟩ := hrest
        · exact absurd rfl hno
        refine forall_mem_cons.mpr ⟨⟨hmemory, hfits⟩, ih (fun e' he' => ?_) hnodup' (fun k hk => ?_)
          hrest fun k hk => hcleared k (mem_append_right _ hk)⟩
        · rw [hsize]
          exact hes e' (mem_cons_of_mem e he')
        · have hother : k ∉ runLcns e := fun hmem => hdisjoint hmem hk
          rw [hbits k, hset k (mem_append_right _ hk), decide_eq_true hother]
          rfl
      · obtain ⟨k, hk, hsame, hend⟩ := bitmapClearRun_missed he hfits hclear
        refine absurd ?_ (hlost k hk)
        rcases hrest with ⟨_, rfl⟩ | ⟨hok, hrest⟩
        · exact hsame
        · exact (freeRuns_frame hrest (hend.resolve_left (not_not.mpr hok))).trans hsame

/-! ## The runlist that is returned -/

/-- A terminated runlist with cluster numbers that are contiguous from `vcn` on. -/
def ContiguousFrom : Int → List RunlistElement → Prop
  | _, [] => False
  | vcn, [t] => t.vcn = vcn ∧ t.lcn = lcnRlNotMapped ∧ t.length = 0
  | vcn, e :: e' :: rest =>
    e.vcn = vcn ∧ 0 ≤ e.lcn ∧ 0 < e.length ∧ ContiguousFrom (s64 (vcn + e.length)) (e' :: rest)

/-- The cluster number after runs that are listed from the last one back. -/
def vcnAfter (startVcn : Int) : List RunlistElement → Int
  | [] => startVcn
  | last :: _ => s64 (last.vcn + last.length)

lemma RunsFrom.reverse_append (hruns : RunsFrom startVcn rl)
    (hsuffix : ContiguousFrom (vcnAfter startVcn rl) suffix) :
    ContiguousFrom startVcn (rl.reverse ++ suffix) := by
  induction rl generalizing suffix with
  | nil => exact hsuffix
  | cons last rest ih =>
    have hvcn : last.vcn = vcnAfter startVcn rest := by
      cases rest with
      | nil => exact hruns.1
      | cons e rest => exact hruns.1
    rw [reverse_cons, append_assoc]
    apply ih hruns.tail
    cases suffix with
    | nil => exact hsuffix.elim
    | cons e suffix =>
      refine ⟨hvcn, hruns.last.2, hruns.last.1, ?_⟩
      rw [← hvcn]
      exact hsuffix

lemma RunsFrom.terminated (hruns : RunsFrom startVcn rl) (hne : rl ≠ []) :
    ContiguousFrom startVcn (terminate rl) ∧ (lcnsOf (terminate rl)).Perm (lcnsOf rl) := by
  cases rl with
  | nil => exact absurd rfl hne
  | cons last rest =>
    refine ⟨hruns.reverse_append ⟨rfl, rfl, rfl⟩, ?_⟩
    rw [terminate, lcnsOf_append]
    exact (append_nil _).symm ▸ lcnsOf_reverse_perm (last :: rest)

/-! ## The allocator -/

/-- The volume `v` after `count` clusters of `vol` have been allocated as `rl`. -/
structure Allocated (vol : AllocVolume) (startVcn count : Int) (v : AllocVolume)
    (rl : List RunlistElement) : Prop where
  contiguous : ContiguousFrom startVcn rl
  length_eq : ((lcnsOf rl).length : Int) = count
  nodup : (lcnsOf rl).Nodup
  in_volume : ∀ k ∈ lcnsOf rl, (k : Int) < vol.nrClusters
  were_clear : ∀ k ∈ lcnsOf rl, vol.lcnbmp.bit k = false
  are_set : ∀ k ∈ lcnsOf rl, v.lcnbmp.bit k = true
  others : ∀ k ∉ lcnsOf rl, v.lcnbmp.bit k = vol.lcnbmp.bit k
  size_eq : v.lcnbmp.size = vol.lcnbmp.size
  free_eq : v.freeClusters = vol.freeClusters - count

/-- What a sound allocation leaves behind: a failed one changes neither the bitmap
nor the number of free clusters. -/
def SoundAllocation (vol : AllocVolume) (startVcn count : Int) (v : AllocVolume) :
    Except Failure (List RunlistElement) → Prop
  | .ok rl => Allocated vol startVcn count v rl
  | .error e => e ≠ .outOfBounds ∧ v.lcnbmp = vol.lcnbmp ∧ v.freeClusters = vol.freeClusters

lemma Account.allocated (haccount : Account vol startVcn v rl)
    (hcount : ((lcnsOf rl).length : Int) = count) (hpos : 1 ≤ count) :
    Allocated vol startVcn count v (terminate rl) := by
  have hne : rl ≠ [] := by
    rintro rfl
    rw [lcnsOf_nil, length_nil] at hcount
    omega
  obtain ⟨hcontiguous, hperm⟩ := haccount.runs.terminated hne
  have hfresh : ∀ k ∈ lcnsOf (terminate rl), (k : Int) < vol.nrClusters ∧
      vol.lcnbmp.bit k = false := by
    intro k hk
    have hfree := haccount.fresh k (hperm.mem_iff.mp hk)
    rw [freeSet, Finset.mem_filter, Finset.mem_range] at hfree
    exact ⟨by omega, hfree.2⟩
  refine ⟨hcontiguous, by rw [hperm.length_eq, hcount], hperm.nodup_iff.mpr haccount.nodup,
    fun k hk => (hfresh k hk).1, fun k hk => (hfresh k hk).2, fun k hk => ?_, fun k hk => ?_,
    haccount.size_eq, by rw [haccount.free_eq, hcount]⟩
  · rw [haccount.bits, usedBit, decide_eq_true (hperm.mem_iff.mp hk), Bool.or_true]
  · rw [haccount.bits, usedBit, decide_eq_false (mt hperm.mem_iff.mpr hk), Bool.or_false]

lemma RunsFrom.mem (hruns : RunsFrom startVcn rl) (he : e ∈ rl) : 0 < e.length ∧ 0 ≤ e.lcn := by
  induction rl with
  | nil => cases he
  | cons last rest ih =>
    rcases mem_cons.mp he with rfl | he
    · exact hruns.last
    · exact ih hruns.tail he

section

variable (haccount : Account vol startVcn v rl) (hvol : ConsistentVolume vol)
include haccount hvol

/-- The runs of an account are in the bitmap. -/
lemma Account.clearable (he : e ∈ rl) : Clearable v.lcnbmp.size e := by
  have hpos := haccount.runs.mem he
  have hlast : e.lcn.toNat + (e.length.toNat - 1) ∈ runLcns e :=
    mem_runLcns.mpr ⟨by omega, by omega⟩
  have hfree := haccount.fresh _ (mem_flatMap.mpr ⟨e, he, hlast⟩)
  rw [freeSet, Finset.mem_filter, Finset.mem_range] at hfree
  have hcovered := hvol.covered
  have hsize := haccount.size_eq
  exact ⟨hpos.1, hpos.2, by omega⟩

/-- Freeing what was taken restores the bitmap and the number of free clusters. -/
lemma Account.freed (hclears : ∀ e ∈ rl, Clears hasMemory e) (hne : rl ≠ []) :
    ∃ fuel v', (∀ n ≥ fuel, clusterFreeFromRl n hasMemory v (terminate rl) = some (v', .ok ())) ∧
      v'.lcnbmp = vol.lcnbmp ∧ v'.freeClusters = vol.freeClusters := by
  cases rl with
  | nil => exact absurd rfl hne
  | cons last rest =>
    have hperm := lcnsOf_reverse_perm (last :: rest)
    obtain ⟨fuel, v', hfree, hsize, hclusters, hbits⟩ := freeRuns_spec
      (t := { vcn := s64 (last.vcn + last.length), lcn := lcnRlNotMapped, length := 0 }) rfl
      (fun e he => haccount.clearable hvol (mem_reverse.mp he))
      (fun e he => hclears e (mem_reverse.mp he)) 0
    refine ⟨fuel, { v' with freeClusters := vol.freeClusters }, fun n hn => ?_, ?_, rfl⟩
    · rw [clusterFreeFromRl, terminate, hfree n hn]
      dsimp only
      rw [hclusters, haccount.free_eq, zero_add, hperm.length_eq, sub_add_cancel]
    · refine AttrData.eq_of_bit (hsize.trans haccount.size_eq) fun k => ?_
      rw [hbits k, haccount.bits k, usedBit]
      by_cases hk : k ∈ lcnsOf (last :: rest)
      · have hfresh := haccount.fresh k hk
        rw [freeSet, Finset.mem_filter] at hfresh
        rw [decide_eq_false (not_not.mpr (hperm.mem_iff.mpr hk)), Bool.and_false, hfresh.2]
      · rw [decide_eq_true (mt hperm.mem_iff.mp hk), decide_eq_false hk, Bool.and_true,
          Bool.or_false]

/-- If the bitmap is restored, each of the runs could be cleared. -/
lemma Account.clears_of_freed
    (h : clusterFreeFromRl fuel hasMemory v (terminate rl) = some (v', r))
    (hsame : v'.lcnbmp = vol.lcnbmp) : ∀ e ∈ rl, Clears hasMemory e := by
  cases rl with
  | nil => exact fun e he => by cases he
  | cons last rest =>
    have hperm := lcnsOf_reverse_perm (last :: rest)
    rw [clusterFreeFromRl] at h
    split at h
    · cases h
    · next hfree =>
      cases h
      intro e he
      refine freeRuns_clears (fun e he => haccount.clearable hvol (mem_reverse.mp he))
        (hperm.nodup_iff.mpr haccount.nodup) (fun k hk => ?_) hfree (fun k hk => ?_) e
        (mem_reverse.mpr he)
      · rw [haccount.bits, usedBit, decide_eq_true (hperm.mem_iff.mp hk), Bool.or_true]
      · have hfresh := haccount.fresh k (hperm.mem_iff.mp hk)
        rw [freeSet, Finset.mem_filter] at hfresh
        exact (congrArg (·.bit k) hsame).trans hfresh.2

end

lemma finishAlloc_sound (hvol : ConsistentVolume vol) (hcount : 1 ≤ count)
    (hexit : ExitAccount vol startVcn count exit)
    (hclears : ∀ v rl e, exit = .failed v rl e → ∀ run ∈ rl, Clears memory.clearRun run) :
    ∃ fuel v r, (∀ n ≥ fuel, finishAlloc n memory exit = some (v, r)) ∧
      SoundAllocation vol startVcn count v r := by
  cases exit with
  | done v rl => exact ⟨0, v, _, fun n _ => rfl, hexit.1.allocated hexit.2 hcount⟩
  | failed v rl e =>
    obtain ⟨haccount, code, rfl⟩ := hexit
    have hcode : Failure.errno code ≠ .outOfBounds := Failure.noConfusion
    cases rl with
    | nil =>
      refine ⟨0, v, _, fun n _ => rfl, hcode, ?_, ?_⟩
      · refine AttrData.eq_of_bit haccount.size_eq fun k => ?_
        rw [haccount.bits k, usedBit, lcnsOf_nil, decide_eq_false not_mem_nil, Bool.or_false]
      · rw [haccount.free_eq, lcnsOf_nil]
        exact sub_zero _
    | cons last rest =>
      obtain ⟨fuel, v', hfree, hbmp, hclusters⟩ :=
        haccount.freed hvol (hclears _ _ _ rfl) (cons_ne_nil last rest)
      refine ⟨fuel, v', .error (.errno code), fun n hn => ?_, hcode, hbmp, hclusters⟩
      rw [finishAlloc, hfree n hn]
      exact cons_ne_nil last rest

lemma finishAlloc_allocated (hcount : 1 ≤ count) (hexit : ExitAccount vol startVcn count exit)
    (h : finishAlloc fuel memory exit = some (v, .ok rl)) : Allocated vol startVcn count v rl := by
  cases exit with
  | done v' rl' =>
    cases h
    exact hexit.1.allocated hexit.2 hcount
  | failed v' rl' e =>
    unfold finishAlloc at h
    cases rl' with
    | nil => cases h
    | cons last rest =>
      dsimp only at h
      split at h <;> cases h

/-- A failed call is sound only if the runs could be cleared. -/
lemma finishAlloc_clears (hvol : ConsistentVolume vol)
    (hexit : ExitAccount vol startVcn count (.failed v rl e))
    (h : finishAlloc fuel memory (.failed v rl e) = some (v', r))
    (hsound : SoundAllocation vol startVcn count v' r) :
    ∀ run ∈ rl, Clears memory.clearRun run := by
  cases rl with
  | nil => exact fun run hrun => by cases hrun
  | cons last rest =>
    rw [finishAlloc] at h
    · split at h
      · cases h
      · cases h
        exact absurd rfl hsound.1
      · next hfree =>
        cases h
        exact hexit.1.clears_of_freed hvol hfree hsound.2.1
    · exact cons_ne_nil last rest

section

variable (memory : AllocMemory) (vol : AllocVolume) (startVcn count startLcn : Int)
  (zone : AllocationZone)

/-- If the search fails, the runs that it has taken can be cleared. -/
def Undoable : Prop :=
  memory.window = true → ∀ fuel v rl e,
    Loop.run (allocStep memory.realloc startVcn) fuel (allocInitial vol count startLcn zone) =
      some (.failed v rl e) → ∀ run ∈ rl, Clears memory.clearRun run

end

/-- A volume of eight clusters, of which number 2 and 3 are free. -/
def tinyVolume : AllocVolume where
  lcnbmp := { size := 1, byte := fun _ => 0xf3 }
  nrClusters := 8
  freeClusters := 2
  mftLcn := 4
  mftZoneStart := 4
  mftZoneEnd := 5
  mftZonePos := 4
  data1ZonePos := 5
  data2ZonePos := 0
  fullZones := ZoneFlags.empty

def ampleMemory : AllocMemory where
  emptyRunlist := true
  window := true
  realloc := fun _ => true
  clearRun := fun _ => true

lemma tinyVolume_consistent : ConsistentVolume tinyVolume where
  nr_nonneg := by decide
  covered := by decide
  padding := fun k hlo hhi => by
    change k < 8 at hhi
    change (8 : Int) ≤ k at hlo
    omega
  free_eq := by decide

/-- Runs that end below the positions of an `int` can be cleared. -/
lemma undoable_of_below (hvol : ConsistentVolume vol) (hcount : 1 ≤ count)
    (hlimit : ∀ k ∈ freeSet vol, k < 2 ^ 34 - 8) (hmemory : ∀ lcn, memory.clearRun lcn = true) :
    Undoable memory vol startVcn count startLcn zone := by
  intro _ fuel v rl e hrun run hmem
  obtain ⟨fuel', exit, hsearch, hexit⟩ := search_ends hvol memory.realloc
    (allocInitial_searching hcount : Searching vol startVcn count
      (allocInitial vol count startLcn zone))
  obtain rfl := Loop.run_unique hsearch hrun
  have hpos := hexit.1.runs.mem hmem
  have hlast : run.lcn.toNat + (run.length.toNat - 1) ∈ runLcns run :=
    mem_runLcns.mpr ⟨by omega, by omega⟩
  have hrange := hlimit _ (hexit.1.fresh _ (mem_flatMap.mpr ⟨run, hmem, hlast⟩))
  exact ⟨hmemory _, setRunFits_of_le (by omega)⟩

/-- A volume of `2 ^ 34 + 8` clusters, of which only number `2 ^ 34` is free. The
zones before it are marked full. -/
def hugeVolume : AllocVolume where
  lcnbmp := { size := 2 ^ 31 + 1, byte := fun k => if k = 2 ^ 31 then 0xfe else 0xff }
  nrClusters := 2 ^ 34 + 8
  freeClusters := 1
  mftLcn := 2 ^ 34
  mftZoneStart := 2 ^ 34
  mftZoneEnd := 2 ^ 34
  mftZonePos := 2 ^ 34
  data1ZonePos := 2 ^ 34
  data2ZonePos := 0
  fullZones := { mft := true, data1 := false, data2 := true }

lemma hugeVolume_bit : hugeVolume.lcnbmp.bit k = !decide (k = 2 ^ 34) := by
  have hk : k % 8 < 8 := Nat.mod_lt k (by decide)
  change getBit (if k / 8 = 2 ^ 31 then 0xfe else 0xff) (k % 8) = _
  by_cases hbyte : k / 8 = 2 ^ 31
  · have hbits : ∀ i < 8, getBit 0xfe i = !decide (i = 0) := by decide
    have hiff : k % 8 = 0 ↔ k = 2 ^ 34 := by omega
    rw [if_pos hbyte, hbits _ hk, decide_eq_decide.mpr hiff]
  · have hne : k ≠ 2 ^ 34 := by omega
    rw [if_neg hbyte, decide_eq_false hne]
    exact getBit_fill true hk

lemma hugeVolume_consistent : ConsistentVolume hugeVolume where
  nr_nonneg := by decide
  covered := by decide
  padding := fun k hlo hhi => by
    change k < 8 * (2 ^ 31 + 1) at hhi
    change (2 ^ 34 + 8 : Int) ≤ k at hlo
    omega
  free_eq := by
    have hset : freeSet hugeVolume = {2 ^ 34} := by
      ext k
      rw [freeSet, Finset.mem_filter, Finset.mem_range, hugeVolume_bit]
      change k < 2 ^ 34 + 8 ∧ _ ↔ _
      simp
      omega
    rw [hset]
    rfl

end NtfsDxe
