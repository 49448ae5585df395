import NtfsDxe.Runlist.MergeSound

/-! # Lookup after a merge

Stated for whole runlists: merging succeeds, its result is again a runlist, and
a lookup in it finds the source where the source is mapped, the destination
everywhere else, and an unmapped part between the two.
-/

namespace NtfsDxe

open List Option

/-- A runlist from the first cluster of an attribute on, as it is kept while the
attribute is read: part of it may not be mapped, and the array may have unused
cells after the terminator. -/
structure PartialRunlist where
  runs : List RunlistElement
  stop : RunlistElement
  slack : List RunlistElement
  spans : Spans 0 runs stop.vcn
  stop_length : stop.length = 0
  stop_lcn : stop.lcn = lcnEnoent ∨ stop.lcn = lcnRlNotMapped
  end_isS64 : IsS64 stop.vcn
  lcn_inRange : ∀ e ∈ runs, LcnInRange e

def PartialRunlist.cells (rl : PartialRunlist) : List RunlistElement :=
  rl.runs ++ rl.stop :: rl.slack

/-- A runlist as allocation and the extents after the base extent return it:
possibly an unmapped element, mapped runs from `first` up to `last`, and a
terminator that does not end the attribute. -/
structure SourceRunlist where
  lead : List RunlistElement
  runs : List RunlistElement
  stop : RunlistElement
  slack : List RunlistElement
  start : Int
  first : Int
  last : Int
  start_nonneg : 0 ≤ start
  lead_spans : Spans start lead first
  lead_unmapped : ∀ e ∈ lead, e.lcn = lcnRlNotMapped
  mapped : Chain first runs last
  runs_ne_nil : runs ≠ []
  stop_eq : stop = { vcn := last, lcn := lcnRlNotMapped, length := 0 }
  last_isS64 : IsS64 last
  lcn_inRange : ∀ e ∈ runs, LcnInRange e

def SourceRunlist.cells (rl : SourceRunlist) : List RunlistElement :=
  rl.lead ++ (rl.runs ++ rl.stop :: rl.slack)

/-- A lookup reports what the runs say, and the marker of the terminator after them. -/
lemma PartialRunlist.rlVcnToLcn_eq (rl : PartialRunlist) (hvcn : 0 ≤ vcn) :
    rlVcnToLcn (some rl.cells) vcn = (lcnAt rl.runs vcn).getD rl.stop.lcn := by
  apply rl.spans.rlVcnToLcn_eq rl.slack rfl rl.stop_length _ rl.lcn_inRange hvcn
  rcases rl.stop_lcn with hlcn | hlcn <;> rw [hlcn] <;> decide

/-- In its mapped range a lookup in the source reports its runs. -/
lemma SourceRunlist.rlVcnToLcn_eq (rl : SourceRunlist) (hfirst : rl.first ≤ vcn)
    (hlast : vcn < rl.last) : some (rlVcnToLcn (some rl.cells) vcn) = lcnAt rl.runs vcn := by
  have hspans := rl.lead_spans.append rl.mapped.spans
  have hle := rl.lead_spans.le
  have hnonneg := rl.start_nonneg
  have hstop : rl.stop.vcn = rl.last ∧ rl.stop.length = 0 ∧ rl.stop.lcn < 0 := by
    rw [rl.stop_eq]
    exact ⟨rfl, rfl, lcnRlNotMapped_neg⟩
  have hrange : ∀ e ∈ rl.lead ++ rl.runs, LcnInRange e := by
    have hend := isS64_iff.mp rl.last_isS64
    intro e he
    rcases mem_append.mp he with hlead | hrun
    · have hshort := rl.lead_spans.stop_le e hlead
      have hlow := rl.lead_spans.start_le e hlead
      right
      rw [rl.lead_unmapped e hlead]
      unfold lcnRlNotMapped
      omega
    · exact rl.lcn_inRange e hrun
  obtain ⟨lcn, hlcn⟩ := isSome_iff_exists.mp (rl.mapped.lcnAt_isSome ⟨hfirst, hlast⟩)
  have hcells : rl.cells = (rl.lead ++ rl.runs) ++ rl.stop :: rl.slack := by
    rw [SourceRunlist.cells, append_assoc]
  rw [rlVcnToLcn, if_neg (by omega), hcells, hspans.nextVcn_append rl.slack hstop.1,
    if_neg (by omega), hspans.findLcn_eq hstop.1 hstop.2.1 hstop.2.2 hrange (by omega),
    lcnAt_append, rl.lead_spans.lcnAt_eq_none (.inr hfirst), hlcn]
  rfl

/-- The source in the form in which the merge takes it apart. -/
lemma SourceRunlist.exists_source (rl : SourceRunlist) :
    ∃ init l, rl.runs = init ++ [l] ∧ Source rl.lead init l [] rl.stop rl.first rl.last ∧
      rl.cells = rl.lead ++ (init ++ l :: rl.stop :: rl.slack) := by
  rcases eq_nil_or_concat' rl.runs with hnil | ⟨init, l, hruns⟩
  · exact absurd hnil rl.runs_ne_nil
  refine ⟨init, l, hruns, ?_, ?_⟩
  · refine ⟨?_, hruns ▸ rl.mapped, by simp, ?_, ?_⟩
    · intro e he
      refine ⟨rl.lead_spans.length_pos e he, ?_⟩
      rw [rl.lead_unmapped e he]
      decide
    · rw [rl.stop_eq]
    · rw [rl.stop_eq]
      exact (by decide : lcnRlNotMapped < lcnHole)
  · rw [SourceRunlist.cells, hruns]
    simp

/-- The source lies inside one hole or unmapped run of the destination, or at or
after its end. -/
def Mergeable (drl : PartialRunlist) (srl : SourceRunlist) : Prop :=
  (∃ e ∈ drl.runs, e.lcn < 0 ∧ e.vcn ≤ srl.first ∧ srl.last ≤ e.stopVcn) ∨ drl.stop.vcn ≤ srl.first

/-- The result of a merge maps what it should. -/
structure Merged (drl : PartialRunlist) (srl : SourceRunlist) (out : PartialRunlist) : Prop where
  source : ∀ vcn, srl.first ≤ vcn → vcn < srl.last →
    rlVcnToLcn (some out.cells) vcn = rlVcnToLcn (some srl.cells) vcn
  destination : ∀ vcn, 0 ≤ vcn → vcn < drl.stop.vcn → ¬ (srl.first ≤ vcn ∧ vcn < srl.last) →
    rlVcnToLcn (some out.cells) vcn = rlVcnToLcn (some drl.cells) vcn
  gap : ∀ vcn, drl.stop.vcn ≤ vcn → vcn < srl.first →
    rlVcnToLcn (some out.cells) vcn = lcnRlNotMapped

/-- How the result of a merge is built: the terminator moves but keeps its
marker, and the runs are those of the destination, an unmapped gap and the source. -/
structure MergedRuns (drl : PartialRunlist) (srl : SourceRunlist) (out : PartialRunlist) :
    Prop where
  stop_lcn : out.stop.lcn = drl.stop.lcn
  stop_vcn : out.stop.vcn = max drl.stop.vcn srl.last
  lcnAt_eq : ∀ vcn, lcnAt out.runs vcn =
    if srl.first ≤ vcn ∧ vcn < srl.last then lcnAt srl.runs vcn
    else (lcnAt drl.runs vcn).or (lcnAt (unmappedGap drl.stop.vcn srl.first) vcn)
  separated : Separated drl.runs →
    (drl.stop.vcn ≤ srl.first → ∀ l ∈ drl.runs.getLast?, l.lcn ≠ lcnRlNotMapped) →
      Separated out.runs

lemma SourceRunlist.first_nonneg (srl : SourceRunlist) : 0 ≤ srl.first :=
  srl.start_nonneg.trans srl.lead_spans.le

lemma MergedRuns.merged (hmerged : MergedRuns drl srl out) : Merged drl srl out := by
  have hfirst := srl.first_nonneg
  refine ⟨?_, ?_, ?_⟩
  · intro vcn hge hlt
    rw [out.rlVcnToLcn_eq (by omega), hmerged.lcnAt_eq, if_pos ⟨hge, hlt⟩,
      ← srl.rlVcnToLcn_eq hge hlt, getD_some]
  · intro vcn hvcn hbefore hout
    obtain ⟨lcn, hlcn⟩ := isSome_iff_exists.mp (drl.spans.lcnAt_isSome ⟨hvcn, hbefore⟩)
    rw [out.rlVcnToLcn_eq hvcn, drl.rlVcnToLcn_eq hvcn, hmerged.lcnAt_eq, if_neg hout, hlcn,
      some_or, getD_some, getD_some]
  · intro vcn hge hlt
    have hnonneg := drl.spans.le
    rw [out.rlVcnToLcn_eq (by omega), hmerged.lcnAt_eq, if_neg (by omega),
      drl.spans.lcnAt_eq_none (.inr hge), unmappedGap,
      lcnAt_cut lcnRlNotMapped_neg, if_pos ⟨hge, hlt⟩]
    rfl

section Main

variable {heap : RunlistHeap}

section

variable (hgrant : heap.Ample) (drl : PartialRunlist) (srl : SourceRunlist)
include hgrant

lemma runlistsMerge_inside_merged (hruns : drl.runs = pre ++ e :: post) (hneg : e.lcn < 0)
    (ha : e.vcn ≤ srl.first) (hb : srl.last ≤ e.stopVcn) :
    ∃ out, runlistsMerge heap (some drl.cells) (some srl.cells) = .ok (some out.cells) ∧
      MergedRuns drl srl out := by
  obtain ⟨init, l, hbody, hsrc, hcells⟩ := srl.exists_source
  have hstop : srl.stop.lcn = lcnRlNotMapped := by rw [srl.stop_eq]
  have htlcn : drl.stop.lcn < lcnHole := by
    rcases drl.stop_lcn with hlcn | hlcn <;> rw [hlcn] <;> decide
  have hspans := drl.spans
  have hrange := drl.lcn_inRange
  have hend := isS64_iff.mp drl.end_isS64
  rw [hruns] at hspans hrange
  have hlow := hspans.start_le e (by simp)
  have hhigh : e.stopVcn ≤ drl.stop.vcn := hspans.stop_le e (by simp)
  have hlt := srl.mapped.spans.lt_of_ne_nil srl.runs_ne_nil
  obtain ⟨runs, slack', hmerge, hjoins⟩ := runlistsMerge_inside hgrant drl.slack srl.slack
    hsrc hstop hspans drl.stop_length htlcn hneg ha hb
  rw [← hbody] at hjoins
  have hover := overlay_spans hspans srl.mapped ha hb
  have hoverRange : ∀ f ∈ overlay pre e post srl.runs srl.first srl.last, LcnInRange f := by
    apply overlay_lcnInRange hrange srl.lcn_inRange hneg hlow
    · rw [isS64_iff]
      omega
    · omega
    · rw [isS64_iff]
      omega
  let out : PartialRunlist :=
    { runs := runs
      stop := drl.stop
      slack := slack'
      spans := hjoins.spans hover
      stop_length := drl.stop_length
      stop_lcn := drl.stop_lcn
      end_isS64 := drl.end_isS64
      lcn_inRange := hjoins.lcnInRange hover le_rfl drl.end_isS64 hoverRange }
  refine ⟨out, ?_, rfl, ?_, ?_, ?_⟩
  · have hdrl : drl.cells = pre ++ e :: (post ++ drl.stop :: drl.slack) := by
      rw [PartialRunlist.cells, hruns]
      simp
    rw [hdrl, hcells, hmerge]
    rfl
  · change drl.stop.vcn = max drl.stop.vcn srl.last
    omega
  · intro vcn
    have hgap : unmappedGap drl.stop.vcn srl.first = [] := by
      rw [unmappedGap, RunlistElement.cut, if_neg (by omega)]
    rw [hgap, hruns, hjoins.lcnAt_eq hover, lcnAt_overlay hspans srl.mapped hneg ha hb, lcnAt,
      or_none]
  · intro hsep _
    rw [hruns] at hsep
    exact hjoins.separated (overlay_separated hsep srl.runs_ne_nil srl.mapped.hole_le)

lemma runlistsMerge_after_merged (ha : drl.stop.vcn ≤ srl.first) :
    ∃ out, runlistsMerge heap (some drl.cells) (some srl.cells) = .ok (some out.cells) ∧
      MergedRuns drl srl out := by
  obtain ⟨init, l, hbody, hsrc, hcells⟩ := srl.exists_source
  have hstop : srl.stop.lcn = lcnRlNotMapped ∧ srl.stop.vcn = srl.last := by
    rw [srl.stop_eq]
    exact ⟨rfl, rfl⟩
  have hlt := srl.mapped.spans.lt_of_ne_nil srl.runs_ne_nil
  have hlow : 0 ≤ drl.stop.vcn := drl.spans.le
  have hend := isS64_iff.mp srl.last_isS64
  obtain ⟨runs, slack', hmerge, hjoins⟩ := runlistsMerge_after hgrant drl.slack srl.slack hsrc
    hstop.1 hstop.2 drl.spans drl.stop_length drl.stop_lcn ha
  rw [← hbody] at hjoins
  have hgap : Spans drl.stop.vcn (unmappedGap drl.stop.vcn srl.first) srl.first :=
    spans_cut le_rfl ha
  have hspans :=
    drl.spans.append (hgap.append srl.mapped.spans)
  have hrange : ∀ e ∈ drl.runs ++ (unmappedGap drl.stop.vcn srl.first ++ srl.runs),
      LcnInRange e := by
    intro e he
    simp only [mem_append] at he
    rcases he with he | he | he
    · exact drl.lcn_inRange e he
    · exact cut_lcnInRange lcnRlNotMapped_neg hlow (by rw [isS64_iff]; omega) e he
    · exact srl.lcn_inRange e he
  let out : PartialRunlist :=
    { runs := runs
      stop := { vcn := srl.last, lcn := drl.stop.lcn, length := 0 }
      slack := slack'
      spans := hjoins.spans hspans
      stop_length := rfl
      stop_lcn := drl.stop_lcn
      end_isS64 := srl.last_isS64
      lcn_inRange := hjoins.lcnInRange hspans le_rfl srl.last_isS64 hrange }
  refine ⟨out, ?_, rfl, ?_, ?_, ?_⟩
  · rw [PartialRunlist.cells, hcells, hmerge]
    rfl
  · change srl.last = max drl.stop.vcn srl.last
    omega
  · intro vcn
    rw [hjoins.lcnAt_eq hspans, lcnAt_append, lcnAt_append]
    split
    next hin =>
      rw [drl.spans.lcnAt_eq_none (.inr (by omega)), hgap.lcnAt_eq_none (.inr hin.1),
        none_or, none_or]
    next hout =>
      rw [srl.mapped.lcnAt_eq_none (by omega), or_none]
  · intro hsep hlast
    apply hjoins.separated
    refine isChain_append.mpr ⟨hsep, ?_, ?_⟩
    · refine isChain_append.mpr ⟨separated_cut _,
        separated_of_hole_le srl.mapped.hole_le, fun x _ y hy => ?_⟩
      exact apart_of_hole_le_right (srl.mapped.hole_le y (mem_of_head? hy))
    · intro x hx y _
      exact .inl (hlast ha x hx)

lemma runlistsMerge_mergeable (hplace : Mergeable drl srl) :
    ∃ out, runlistsMerge heap (some drl.cells) (some srl.cells) = .ok (some out.cells) ∧
      MergedRuns drl srl out := by
  rcases hplace with ⟨e, he, hneg, ha, hb⟩ | ha
  · obtain ⟨pre, post, hruns⟩ := append_of_mem he
    exact runlistsMerge_inside_merged hgrant drl srl hruns hneg ha hb
  · exact runlistsMerge_after_merged hgrant drl srl ha

end

/-- Run list merge is pointwise overlay: it succeeds, and its result is a runlist
in which a lookup finds the source in the mapped range of the source, and the
destination or an unmapped gap elsewhere. -/
theorem runlistsMerge_overlay (hgrant : ∀ n, heap.grants n = true) (drl : PartialRunlist)
    (srl : SourceRunlist) (hplace : Mergeable drl srl) :
    ∃ out, runlistsMerge heap (some drl.cells) (some srl.cells) = .ok (some out.cells) ∧
      Merged drl srl out := by
  obtain ⟨out, hmerge, hmerged⟩ := runlistsMerge_mergeable hgrant drl srl hplace
  exact ⟨out, hmerge, hmerged.merged⟩

end Main

def ampleHeap : RunlistHeap := { grants := fun _ => true, fresh := ⟨0, 0, 0⟩ }

/-- Four clusters, a hole of four, and four clusters that follow the hole on the
volume as well. -/
def holedRunlist : PartialRunlist where
  runs := [⟨0, 100, 4⟩, ⟨4, lcnHole, 4⟩, ⟨8, 108, 4⟩]
  stop := ⟨12, lcnEnoent, 0⟩
  slack := []
  spans := by simp [Spans, lcnHole, lcnRlNotMapped]
  stop_length := rfl
  stop_lcn := .inl rfl
  end_isS64 := by rw [isS64_iff]; decide
  lcn_inRange := by simp [LcnInRange, lcnHole]

def fillingRunlist : SourceRunlist where
  lead := []
  runs := [⟨4, 104, 4⟩]
  stop := ⟨8, lcnRlNotMapped, 0⟩
  slack := []
  start := 4
  first := 4
  last := 8
  start_nonneg := by decide
  lead_spans := rfl
  lead_unmapped := by simp
  mapped := by simp [Chain, lcnHole]
  runs_ne_nil := by simp
  stop_eq := rfl
  last_isS64 := by rw [isS64_iff]; decide
  lcn_inRange := by simp [LcnInRange]

theorem runlistsMerge_overlay_filled :
    runlistsMerge ampleHeap (some holedRunlist.cells) (some fillingRunlist.cells) =
        .ok (some [⟨0, 100, 12⟩, ⟨12, lcnEnoent, 0⟩, ⟨8, 108, 4⟩, ⟨12, lcnEnoent, 0⟩]) ∧
      ∃ out, runlistsMerge ampleHeap (some holedRunlist.cells) (some fillingRunlist.cells) =
        .ok (some out.cells) ∧ Merged holedRunlist fillingRunlist out := by
  refine ⟨by decide +kernel, ?_⟩
  exact runlistsMerge_overlay (fun _ => rfl) holedRunlist fillingRunlist
    (.inl ⟨⟨4, lcnHole, 4⟩, by simp [holedRunlist], by decide, le_rfl, le_rfl⟩)

end NtfsDxe
