import NtfsDxe.Runlist.MergeLookup
import NtfsDxe.Runlist.Parsed

/-! # Restoring the end of an attribute

Only the base extent knows where the attribute ends. When other extents were
merged before it, the driver looks for the terminator of the merged list and
marks it as the end. The search starts at the place of the old terminator. A list
that became shorter ends before that place, and the driver then marks a cell
behind its end.
-/

namespace NtfsDxe

open Foundation List Option

variable {heap : RunlistHeap}

/-! ## The marker code -/

/-- The terminator at the end of an attribute with `clusters` clusters. -/
def attributeEnd (clusters : Int) : RunlistElement :=
  { vcn := clusters, lcn := lcnEnoent, length := 0 }

variable {drl runs : List RunlistElement} {t : RunlistElement}

lemma extendToMarker_eq (hlast : unmappedLast heap drl ds slots = .ok (drl', ds', slots'))
    (hslots : moreSlots heap (drl'.modify ds' fun e => { e with length := clusters - e.vcn })
      (ds' + 1) (ds' + 2) slots' 1 = .ok (drl'', k)) :
    extendToMarker heap drl ds slots clusters =
      .ok (drl''.set (ds' + 1) (attributeEnd clusters)) := by
  simp only [extendToMarker, hlast, bind, Except.bind, hslots, pure, Except.pure, attributeEnd]

lemma moreSlots_zero (hgrant : heap.Ample) (drl : List RunlistElement)
    (oldSize newSize count : Nat) : moreSlots heap drl oldSize newSize 0 count =
      .ok (drl ++ List.replicate (newSize - drl.length) heap.fresh, count) := by
  simp only [moreSlots, rlReallocCritical, rlRealloc_eq hgrant, Except.map]

lemma extendToMarker_spec (hgrant : heap.Ample) (ht : t.lcn = lcnRlNotMapped) :
    ∃ slack', extendToMarker heap (runs ++ t :: slack) runs.length 0 clusters =
      .ok (runs ++ { t with length := clusters - t.vcn } :: attributeEnd clusters :: slack') := by
  have hlast : unmappedLast heap (runs ++ t :: slack) runs.length 0 =
      .ok (runs ++ t :: slack, runs.length, 0) := by
    rw [unmappedLast]
    simp [ht]
  refine ⟨slack.tail, (extendToMarker_eq hlast (moreSlots_zero hgrant _ _ _ _)).trans ?_⟩
  cases slack <;> simp

section

variable (hpos : ∀ e ∈ runs.drop dend, 0 < e.length) (hdend : dend ≤ runs.length)
  (hlength : t.length = 0)
include hpos hdend hlength

lemma scanEnd_from (slack : List RunlistElement) :
    scanEnd (runs ++ t :: slack) dend = .ok runs.length := by
  have hskip : ∀ x ∈ runs.drop dend, decide (x.length = 0) = false := by
    intro x hx
    have := hpos x hx
    simp only [decide_eq_false_iff_not]
    omega
  have hfound := scan_eq (runs.take dend) slack hskip (e := t) (by simp [hlength])
  rw [← append_assoc, take_append_drop, length_take, length_drop,
    min_eq_left hdend, Nat.add_sub_cancel' hdend] at hfound
  exact hfound

/-- The marker is re-attached to the terminator that the search finds. -/
lemma restoreMarker_spec (hgrant : heap.Ample) (ht : t.lcn = lcnRlNotMapped)
    (hle : t.vcn ≤ clusters) :
    ∃ slack', restoreMarker heap (runs ++ t :: slack) dend clusters =
      .ok (runs ++ (unmappedGap t.vcn clusters ++ attributeEnd clusters :: slack')) := by
  have hscan := scanEnd_from hpos hdend hlength slack
  have hcell : cell heap (runs ++ t :: slack) runs.length = t := by simp
  unfold restoreMarker
  simp only [hscan, bind, Except.bind, hcell, pure, Except.pure]
  rw [if_neg (by omega)]
  rcases eq_or_lt_of_le hle with heq | hlt
  · rw [heq, unmappedGap_self]
    simp [attributeEnd, heq, hlength]
  · rw [if_neg (by omega)]
    obtain ⟨slack', hextend⟩ := extendToMarker_spec hgrant ht
    refine ⟨slack', ?_⟩
    rw [hextend, unmappedGap_of_lt hlt, ht]
    rfl

/-- A list that already reaches beyond the marker is left alone. -/
lemma restoreMarker_beyond (heap : RunlistHeap) (slack : List RunlistElement)
    (hlt : clusters < t.vcn) :
    restoreMarker heap (runs ++ t :: slack) dend clusters = .ok (runs ++ t :: slack) := by
  have hscan := scanEnd_from hpos hdend hlength slack
  have hcell : cell heap (runs ++ t :: slack) runs.length = t := by simp
  unfold restoreMarker
  simp only [hscan, bind, Except.bind, hcell, pure, Except.pure]
  rw [if_pos hlt]

end

lemma runlistsMerge_of_marker (hplan : mergePlan heap drl srl = .ok plan)
    (hmerge : mergeAs heap drl srl plan = .ok merged) (hmarker : plan.marker = some clusters)
    (hrestore : restoreMarker heap merged plan.dend clusters = .ok out) :
    runlistsMerge heap (some drl) (some srl) = .ok (some out) := by
  simp only [runlistsMerge, hplan, bind, Except.bind, hmerge, hmarker, pure, Except.pure, hrestore]

/-! ## Runlists to which extents are still to be added -/

lemma RunlistElement.lcnOf_eq_notMapped {e : RunlistElement} {vcn : Int} (hle : e.vcn ≤ vcn) :
    e.lcnOf vcn = lcnRlNotMapped ↔ e.lcn = lcnRlNotMapped := by
  unfold RunlistElement.lcnOf lcnRlNotMapped
  split <;> omega

lemma Chain.lcnAt_ne_notMapped (hchain : Chain a runs b) :
    lcnAt runs vcn ≠ some lcnRlNotMapped := by
  induction runs generalizing a with
  | nil => simp [lcnAt]
  | cons e rest ih =>
    obtain ⟨_, _, hlcn, hrest⟩ := hchain
    rw [lcnAt]
    split
    next hin =>
      intro heq
      rw [(RunlistElement.lcnOf_eq_notMapped hin.1).mp (some.inj heq)] at hlcn
      exact absurd hlcn (by decide)
    · exact ih hrest

lemma Spans.lcnAt_last (hspans : Spans a runs b)
    (hlast : runs.getLast? = some l) : lcnAt runs (b - 1) = some (l.lcnOf (b - 1)) := by
  rcases eq_nil_or_concat' runs with rfl | ⟨init, l', rfl⟩
  · cases hlast
  rw [getLast?_concat] at hlast
  cases hlast
  obtain ⟨mid, hinit, hvcn, hpos, _, hend⟩ := spans_append_iff.mp hspans
  have hstop : mid + l.length = b := hend
  rw [lcnAt_append, hinit.lcnAt_eq_none (.inr (by omega)), none_or, lcnAt,
    if_pos (by omega)]

lemma Spans.last_ne_notMapped (hspans : Spans a runs b)
    (hmapped : lcnAt runs (b - 1) ≠ some lcnRlNotMapped) :
    ∀ l ∈ runs.getLast?, l.lcn ≠ lcnRlNotMapped := by
  intro l hl hlcn
  have hlast := hspans.lcnAt_last hl
  have hstop := hspans.getLast_stopVcn hl
  have hpos := hspans.length_pos l (mem_of_getLast? hl)
  unfold RunlistElement.stopVcn at hstop
  rw [(RunlistElement.lcnOf_eq_notMapped (by omega)).mpr hlcn] at hlast
  exact hmapped hlast

/-- Clusters without a mapping lie in one unmapped run, if unmapped runs are
separated. -/
lemma Spans.exists_unmapped (hspans : Spans a runs b) (hsep : Separated runs)
    (hax : a ≤ x) (hxy : x < y) (hyb : y ≤ b)
    (hunmapped : ∀ vcn, x ≤ vcn → vcn < y → lcnAt runs vcn = some lcnRlNotMapped) :
    ∃ e ∈ runs, e.lcn = lcnRlNotMapped ∧ e.vcn ≤ x ∧ y ≤ e.stopVcn := by
  induction runs generalizing a with
  | nil =>
    have hab : a = b := hspans
    omega
  | cons e rest ih =>
    obtain ⟨hvcn, hpos, _, hrest⟩ := hspans
    by_cases hin : x < e.stopVcn
    · -- The element at `x`; its right neighbour is mapped, so it contains all of them.
      have hx := hunmapped x le_rfl hxy
      unfold RunlistElement.stopVcn at hin
      rw [lcnAt, if_pos (by omega)] at hx
      have hlcn := (RunlistElement.lcnOf_eq_notMapped (by omega)).mp (some.inj hx)
      refine ⟨e, mem_cons_self, hlcn, by omega, ?_⟩
      by_contra hlt
      unfold RunlistElement.stopVcn at hlt
      cases rest with
      | nil =>
        have hend : a + e.length = b := hrest
        omega
      | cons f rest =>
        obtain ⟨hfvcn, hfpos, _, _⟩ := hrest
        have hf := hunmapped (e.vcn + e.length) (by omega) (by omega)
        rw [lcnAt, if_neg (by omega), lcnAt, if_pos (by omega)] at hf
        have hflcn := (RunlistElement.lcnOf_eq_notMapped (by omega)).mp (some.inj hf)
        rcases (isChain_cons_cons.mp hsep).1 with hne | hne
        · exact hne hlcn
        · exact hne hflcn
    · unfold RunlistElement.stopVcn at hin
      obtain ⟨f, hf, hfound⟩ := ih hrest (List.IsChain.tail hsep) (by omega) fun vcn hx hy => by
        have hv := hunmapped vcn hx hy
        rwa [lcnAt, if_neg (by omega)] at hv
      exact ⟨f, mem_cons_of_mem _ hf, hfound⟩

/-- A runlist of an attribute whose extents with the clusters `free` are still to
be added. Before the end of the attribute a runlist ends with a mapped run. -/
structure Pending (clusters : Int) (free : Int → Prop) (rl : PartialRunlist) : Prop where
  separated : Separated rl.runs
  stop_le : rl.stop.vcn ≤ clusters
  last_mapped : rl.stop.vcn < clusters → lcnAt rl.runs (rl.stop.vcn - 1) ≠ some lcnRlNotMapped
  unmapped : ∀ vcn, free vcn → (lcnAt rl.runs vcn).getD lcnRlNotMapped = lcnRlNotMapped

section Pending

variable {drl out : PartialRunlist}

section

variable (hpending : Pending clusters free drl)
include hpending

lemma Pending.place (hx : 0 ≤ x) (hxy : x < y) (hy : y ≤ clusters)
    (hfree : ∀ vcn, x ≤ vcn → vcn < y → free vcn) :
    (∃ e ∈ drl.runs, e.lcn = lcnRlNotMapped ∧ e.vcn ≤ x ∧ y ≤ e.stopVcn) ∨ drl.stop.vcn ≤ x := by
  by_cases hend : drl.stop.vcn ≤ x
  · exact .inr hend
  have hat : ∀ vcn, x ≤ vcn → vcn < y → vcn < drl.stop.vcn →
      lcnAt drl.runs vcn = some lcnRlNotMapped := by
    intro vcn hle hlt hstop
    obtain ⟨lcn, hlcn⟩ := isSome_iff_exists.mp
      (drl.spans.lcnAt_isSome ⟨hx.trans hle, hstop⟩)
    have hunmapped := hpending.unmapped vcn (hfree vcn hle hlt)
    rw [hlcn, getD_some] at hunmapped
    rw [hlcn, hunmapped]
  -- The runlist cannot end among them, because its last run is mapped.
  have hyStop : y ≤ drl.stop.vcn := by
    by_contra hlt
    exact hpending.last_mapped (by omega) (hat _ (by omega) (by omega) (by omega))
  refine .inl (drl.spans.exists_unmapped hpending.separated hx hxy hyStop ?_)
  intro vcn hle hlt
  exact hat vcn hle hlt (by omega)

lemma Pending.mergeable (hlast : srl.last ≤ clusters)
    (hfree : ∀ vcn, srl.first ≤ vcn → vcn < srl.last → free vcn) : Mergeable drl srl := by
  have hlt := srl.mapped.spans.lt_of_ne_nil srl.runs_ne_nil
  rcases hpending.place srl.first_nonneg hlt hlast hfree with ⟨e, he, hlcn, hplace⟩ | hend
  · exact .inl ⟨e, he, hlcn ▸ lcnRlNotMapped_neg, hplace⟩
  · exact .inr hend

lemma Pending.unmapped_or_gap (hfree : free vcn) :
    ((lcnAt drl.runs vcn).or (lcnAt (unmappedGap a b) vcn)).getD lcnRlNotMapped =
      lcnRlNotMapped := by
  have hunmapped := hpending.unmapped vcn hfree
  cases hv : lcnAt drl.runs vcn with
  | some lcn =>
    rw [hv] at hunmapped
    exact hunmapped
  | none =>
    rw [unmappedGap, lcnAt_cut lcnRlNotMapped_neg]
    split <;> rfl

/-- After a merge the clusters of the source are no longer free. -/
lemma Pending.merge (hlast : srl.last ≤ clusters) (hmerged : MergedRuns drl srl out) :
    Pending clusters (fun vcn => free vcn ∧ ¬ (srl.first ≤ vcn ∧ vcn < srl.last)) out := by
  have hlt := srl.mapped.spans.lt_of_ne_nil srl.runs_ne_nil
  have hstop := hmerged.stop_vcn
  have hle := hpending.stop_le
  refine ⟨?_, by omega, ?_, ?_⟩
  · apply hmerged.separated hpending.separated
    intro hafter
    exact drl.spans.last_ne_notMapped (hpending.last_mapped (by omega))
  · intro hshort
    rw [hmerged.lcnAt_eq]
    split
    · exact srl.mapped.lcnAt_ne_notMapped
    next hout =>
      have hsame : out.stop.vcn = drl.stop.vcn := by omega
      have hgap : unmappedGap drl.stop.vcn srl.first = [] := by
        rw [unmappedGap, RunlistElement.cut, if_neg (by omega)]
      rw [hsame, hgap, lcnAt, or_none]
      exact hpending.last_mapped (by omega)
  · rintro vcn ⟨hfree, hout⟩
    rw [hmerged.lcnAt_eq, if_neg hout]
    exact hpending.unmapped_or_gap hfree

end

end Pending

/-! ## The runs of the base extent -/

/-- The runs of a base extent that is followed by others. -/
structure BaseRuns (init : List RunlistElement) (l : RunlistElement) (stop clusters : Int) :
    Prop where
  mapped : Chain 0 (init ++ [l]) stop
  stop_lt : stop < clusters
  end_isS64 : IsS64 clusters
  lcn_inRange : ∀ e ∈ init ++ [l], LcnInRange e

def baseCells (init : List RunlistElement) (l : RunlistElement) (stop clusters : Int) :
    List RunlistElement :=
  init ++ l :: { vcn := stop, lcn := lcnRlNotMapped, length := clusters - stop } ::
    [attributeEnd clusters]

section Base

lemma BaseRuns.source (hbase : BaseRuns init l b clusters) :
    Source [] init l [{ vcn := b, lcn := lcnRlNotMapped, length := clusters - b }]
      (attributeEnd clusters) 0 b := by
  have hlt := hbase.stop_lt
  refine ⟨by simp, hbase.mapped, ?_, rfl, (by decide : lcnEnoent < lcnHole)⟩
  intro x hx
  rw [mem_singleton.mp hx]
  exact ⟨by simpa using hlt, (by decide : lcnRlNotMapped < lcnHole)⟩

/-- Where the base extent goes: to the front, in the place of an unmapped run. -/
lemma mergePlan_base (hbase : BaseRuns init l b clusters) (drl : PartialRunlist)
    (hruns : drl.runs = e :: post) (hlcn : e.lcn = lcnRlNotMapped) (hb : b ≤ e.stopVcn)
    (hle : drl.stop.vcn ≤ clusters) :
    mergePlan heap drl.cells (baseCells init l b clusters) =
      .ok { start := true, finish := decide (e.stopVcn = b), ss := init.length + 1, sstart := 0,
            dins := 0, dend := post.length + 1, marker := some clusters } := by
  have hspans := drl.spans
  rw [hruns] at hspans
  have hmid : ∀ x ∈ e :: post, 0 < x.length := hspans.length_pos
  have hstop : e.stopVcn ≤ drl.stop.vcn := hspans.stop_le e mem_cons_self
  obtain ⟨hvcn, hpos, _, _⟩ := hspans
  have hbpos : 0 < b := hbase.mapped.spans.lt_of_ne_nil (by simp)
  have hlast : (init ++ l ::
    [{ vcn := b, lcn := lcnRlNotMapped, length := clusters - b }]).getLast? =
      some { vcn := b, lcn := lcnRlNotMapped, length := clusters - b } := by simp
  have hplan := mergePlan_eq heap drl.slack [] hbase.source hlast
    (fun x hx => absurd hx not_mem_nil) hmid drl.stop_length rfl (.inr (by omega))
    (hlcn ▸ lcnRlNotMapped_neg)
  have hzstop : RunlistElement.stopVcn { vcn := b, lcn := lcnRlNotMapped, length := clusters - b } =
      clusters := by simp [RunlistElement.stopVcn]
  have hshort : decide (e.stopVcn ≤ clusters) = true := by simpa using hstop.trans hle
  have hlong : decide (e.length = 0) = false := by simpa using hpos.ne'
  have hnew : (!decide (b < e.stopVcn)) = decide (e.stopVcn = b) := by
    rw [← decide_not, decide_eq_decide]
    omega
  have hkind : decide (lcnRlNotMapped ≤ e.lcn) = true := by simp [hlcn]
  have hfirst : decide (e.vcn = 0) = true := by simpa using hvcn
  simp only [hzstop, hshort, hlong, hkind, hfirst, hnew, attributeEnd, Bool.or_true,
    Bool.true_and, decide_true, length_nil, zero_add] at hplan
  rw [PartialRunlist.cells, hruns]
  exact hplan

/-- The base extent was put in front of the runs that were there. -/
structure FrontMerged (body : List RunlistElement) (b : Int) (drl out : PartialRunlist) :
    Prop where
  lcnAt_eq : ∀ vcn, lcnAt out.runs vcn = if 0 ≤ vcn ∧ vcn < b then lcnAt body vcn
    else (lcnAt drl.runs vcn).or (lcnAt (unmappedGap drl.stop.vcn out.stop.vcn) vcn)
  separated : Separated out.runs

section

variable (hgrant : heap.Ample) (hbase : BaseRuns init l b clusters)
  {drl : PartialRunlist} (hpending : Pending clusters free drl) (hruns : drl.runs = e :: post)
  (hlcn : e.lcn = lcnRlNotMapped) (hb : b ≤ e.stopVcn)
include hgrant hbase hpending hruns hlcn hb

/-- The runs after the base extent was put in front, before the end is restored. -/
lemma mergeAs_base :
    ∃ runs slack', mergeAs heap drl.cells (baseCells init l b clusters)
        { start := true, finish := decide (e.stopVcn = b), ss := init.length + 1, sstart := 0,
          dins := 0, dend := post.length + 1, marker := some clusters } =
        .ok (runs ++ drl.stop :: slack') ∧
      Spans 0 runs drl.stop.vcn ∧ (∀ f ∈ runs, LcnInRange f) ∧ Separated runs ∧
      (∀ vcn, lcnAt runs vcn =
        if 0 ≤ vcn ∧ vcn < b then lcnAt (init ++ [l]) vcn else lcnAt drl.runs vcn) ∧
      ((e.stopVcn = b → init = [] → joinsRight l (post ++ [drl.stop]) = false) →
        post.length + 1 ≤ runs.length) := by
  have hspans : Spans 0 ([] ++ e :: post) drl.stop.vcn := hruns ▸ drl.spans
  have hrange := drl.lcn_inRange
  have hsep : Separated ([] ++ e :: post) := hruns ▸ hpending.separated
  rw [hruns] at hrange
  have hvcn : e.vcn = 0 := hspans.1
  have hneg : e.lcn < 0 := hlcn ▸ lcnRlNotMapped_neg
  have htlcn : drl.stop.lcn < lcnHole := by
    rcases drl.stop_lcn with hstop | hstop <;> rw [hstop] <;> decide
  have hbpos : 0 < b := hbase.mapped.spans.lt_of_ne_nil (by simp)
  have hover := overlay_spans hspans hbase.mapped hvcn.le hb
  have hoverRange : ∀ f ∈ overlay [] e post (init ++ [l]) 0 b, LcnInRange f := by
    apply overlay_lcnInRange hrange hbase.lcn_inRange hneg hvcn.ge
    · rw [isS64_iff]
      decide
    · omega
    · have hstop := isS64_iff.mp drl.end_isS64
      have hle : e.stopVcn ≤ drl.stop.vcn := hspans.stop_le e mem_cons_self
      rw [isS64_iff]
      omega
  obtain ⟨runs, slack', hmerge, hjoins, hlength⟩ := mergeAs_inside hgrant hbase.mapped
    hspans htlcn hneg hvcn.le hb [] drl.slack
    [{ vcn := b, lcn := lcnRlNotMapped, length := clusters - b }, attributeEnd clusters]
    (some clusters)
  have hfirst : decide (e.vcn = 0) = true := by simpa using hvcn
  simp only [hfirst, length_nil, zero_add] at hmerge
  refine ⟨runs, slack', ?_, hjoins.spans hover, ?_, ?_, ?_, hlength rfl hvcn⟩
  · rw [PartialRunlist.cells, hruns]
    exact hmerge
  · exact hjoins.lcnInRange hover le_rfl drl.end_isS64 hoverRange
  · exact hjoins.separated (overlay_separated hsep (by simp) hbase.mapped.hole_le)
  · intro vcn
    rw [hruns, hjoins.lcnAt_eq hover, lcnAt_overlay hspans hbase.mapped hneg hvcn.le hb]
    rfl

/-- Unless the list becomes shorter, the end of the attribute is restored. -/
lemma runlistsMerge_base (hstop : drl.stop.lcn = lcnRlNotMapped)
    (hapart : e.stopVcn = b → init = [] → joinsRight l (post ++ [drl.stop]) = false) :
    ∃ out, runlistsMerge heap (some drl.cells) (some (baseCells init l b clusters)) =
        .ok (some out.cells) ∧
      out.stop = attributeEnd clusters ∧ FrontMerged (init ++ [l]) b drl out := by
  obtain ⟨runs, slack', hmerge, hspans, hrange, hsep, hat, hlength⟩ := mergeAs_base hgrant hbase
    hpending hruns hlcn hb
  have hle := hpending.stop_le
  obtain ⟨slack'', hrestore⟩ := restoreMarker_spec
    (fun x hx => hspans.length_pos x (mem_of_mem_drop hx)) (hlength hapart) drl.stop_length
    hgrant hstop hle
  have hgap : Spans drl.stop.vcn (unmappedGap drl.stop.vcn clusters) clusters :=
    spans_cut le_rfl hle
  let out : PartialRunlist :=
    { runs := runs ++ unmappedGap drl.stop.vcn clusters
      stop := attributeEnd clusters
      slack := slack''
      spans := hspans.append hgap
      stop_length := rfl
      stop_lcn := .inl rfl
      end_isS64 := hbase.end_isS64
      lcn_inRange := by
        intro f hf
        rcases mem_append.mp hf with hf | hf
        · exact hrange f hf
        · exact cut_lcnInRange lcnRlNotMapped_neg drl.spans.le hbase.end_isS64 f hf }
  refine ⟨out, ?_, rfl, ?_, ?_⟩
  · have hcells : out.cells =
        runs ++ (unmappedGap drl.stop.vcn clusters ++ attributeEnd clusters :: slack'') :=
      append_assoc _ _ _
    rw [hcells]
    exact runlistsMerge_of_marker (mergePlan_base hbase drl hruns hlcn hb hle) hmerge rfl hrestore
  · intro vcn
    rw [lcnAt_append, hat]
    split
    next hin =>
      obtain ⟨lcn, hv⟩ := isSome_iff_exists.mp (hbase.mapped.lcnAt_isSome hin)
      rw [hv, some_or]
    · rfl
  · refine isChain_append.mpr ⟨hsep, separated_cut _, fun x hx y hy => ?_⟩
    -- A gap is only added after a mapped run.
    have hshort : drl.stop.vcn < clusters := by
      by_contra hge
      rw [unmappedGap, RunlistElement.cut, if_neg hge] at hy
      cases hy
    refine .inl (hspans.last_ne_notMapped ?_ x hx)
    rw [hat]
    split
    · exact hbase.mapped.lcnAt_ne_notMapped
    · exact hpending.last_mapped hshort

end

lemma Pending.front {drl out : PartialRunlist}
    (hpending : Pending clusters free drl) (hbody : Chain 0 body b)
    (hmerged : FrontMerged body b drl out)
    (hstop : out.stop.vcn = clusters ∨ out.stop.vcn = drl.stop.vcn) :
    Pending clusters (fun vcn => free vcn ∧ ¬ (0 ≤ vcn ∧ vcn < b)) out := by
  have hle := hpending.stop_le
  refine ⟨hmerged.separated, by omega, ?_, ?_⟩
  · intro hshort
    have hsame : out.stop.vcn = drl.stop.vcn := by omega
    rw [hmerged.lcnAt_eq, hsame, unmappedGap_self, lcnAt, or_none]
    split
    · exact hbody.lcnAt_ne_notMapped
    · exact hpending.last_mapped (by omega)
  · rintro vcn ⟨hfree, hout⟩
    rw [hmerged.lcnAt_eq, if_neg hout]
    exact hpending.unmapped_or_gap hfree

/-! ## Two ways to lose the end -/

/-- A single run that takes the place of the first element and is joined to the
next run: the old terminator stays behind the new one. -/
lemma rlReplace_joined (heap : RunlistHeap) (tail slack rest : List RunlistElement)
    (hjoin : rlAreMergeable l g = true) (hmarker : (cell heap (tail ++ [t]) 0).lcn ≠ lcnEnoent) :
    rlReplace heap (e :: g :: (tail ++ t :: slack)) (tail.length + 3) (l :: rest) 1 0 =
      .ok (l.merge g :: (tail ++ t :: t :: slack)) := by
  have hright : (decide (0 + 1 < tail.length + 3) && rlAreMergeable (cell heap (l :: rest) (1 - 1))
      (cell heap (e :: g :: (tail ++ t :: slack)) (0 + 1))) = true := by simp [hjoin]
  have hmoved : rlMm (e :: g :: (tail ++ t :: slack)) 1 2 (tail.length + 1) =
      e :: (tail ++ t :: t :: slack) := by
    have htake : ((e :: g :: (tail ++ t :: slack)).drop 2).take (tail.length + 1) =
      tail ++ [t] := by
      simp [take_append]
    have hrest : (e :: g :: (tail ++ t :: slack)).drop (1 + (tail ++ [t]).length) = t :: slack := by
      have hlength : 1 + (tail ++ [t]).length = tail.length + 2 := by
        rw [length_append, length_singleton]
        omega
      rw [hlength, drop_succ_cons, drop_succ_cons, drop_left]
    rw [rlMm_eq_splice, htake, splice, hrest]
    simp
  have hcopied : rlMc (e :: (tail ++ t :: t :: slack)) 0 (l.merge g :: rest) 0 1 =
      l.merge g :: (tail ++ t :: t :: slack) := rfl
  have hfix : fixEndMarker heap (l.merge g :: (tail ++ t :: t :: slack)) 1 =
      l.merge g :: (tail ++ t :: t :: slack) := by
    have hnext : cell heap (l.merge g :: (tail ++ t :: t :: slack)) 1 =
      cell heap (tail ++ [t]) 0 := by
      cases tail <;> rfl
    rw [fixEndMarker, hnext, if_neg hmarker]
  unfold rlReplace
  rw [hright]
  change Except.ok (fixEndMarker heap (rlMc (rlMm (e :: g :: (tail ++ t :: slack)) 1 2
    (tail.length + 1)) 0 (l.merge g :: rest) 0 1) 1) = _
  rw [hmoved, hcopied, hfix]

section

variable (hgrant : heap.Ample) {drl : PartialRunlist}
  (hpending : Pending clusters free drl) (hruns : drl.runs = e :: post)
  (hlcn : e.lcn = lcnRlNotMapped) (hstop : drl.stop.lcn = lcnRlNotMapped)
include hgrant hpending hruns hlcn hstop

/-- If a base extent of one run is joined to the extent after it, the search for
the terminator finds the old one behind the list, and the list keeps a terminator
that does not end the attribute. -/
lemma runlistsMerge_base_joined (hbase : BaseRuns [] l b clusters) (hb : e.stopVcn = b)
    (hjoin : joinsRight l (post ++ [drl.stop]) = true) :
    ∃ out, runlistsMerge heap (some drl.cells) (some (baseCells [] l b clusters)) =
        .ok (some out.cells) ∧
      out.stop = drl.stop ∧ FrontMerged [l] b drl out := by
  obtain ⟨runs, slack', hmerge, hspans, hrange, hsep, hat, _⟩ := mergeAs_base hgrant hbase
    hpending hruns hlcn hb.ge
  have hle := hpending.stop_le
  have hdrl := drl.spans
  rw [hruns] at hdrl
  cases post with
  | nil =>
    have hadj := adjacent_of_mergeable hjoin (.inl (hbase.mapped.hole_le l (by simp)))
    have hmapped := hadj.hole_le_right
    rw [hstop] at hmapped
    exact absurd hmapped (by decide)
  | cons g tail =>
    have hmarker : (cell heap (tail ++ [drl.stop]) 0).lcn ≠ lcnEnoent := by
      cases tail with
      | nil =>
        change drl.stop.lcn ≠ lcnEnoent
        rw [hstop]
        decide
      | cons h tail =>
        obtain ⟨_, _, _, _, _, _, _, _, hlcn', _⟩ := hdrl
        change h.lcn ≠ lcnEnoent
        intro hend
        rw [hend] at hlcn'
        exact absurd hlcn' (by decide)
    have hjoined := rlReplace_joined heap tail drl.slack
      [{ vcn := b, lcn := lcnRlNotMapped, length := clusters - b }, attributeEnd clusters]
      hjoin hmarker (e := e)
    have hresult : mergeAs heap drl.cells (baseCells [] l b clusters)
        { start := true, finish := decide (e.stopVcn = b), ss := 1, sstart := 0, dins := 0,
          dend := tail.length + 2, marker := some clusters } =
        .ok (l.merge g :: (tail ++ drl.stop :: drl.stop :: drl.slack)) := by
      rw [PartialRunlist.cells, hruns]
      simp only [hb]
      exact hjoined
    -- Both descriptions of the array have the same runs before the first terminator.
    have hsame : runs = l.merge g :: tail := by
      have hpos : ∀ x ∈ l.merge g :: tail, 0 < x.length := by
        have hlpos := hbase.mapped.spans.length_pos l (by simp)
        have hgpos := hdrl.length_pos g (by simp)
        intro x hx
        rcases mem_cons.mp hx with rfl | hx
        · exact add_pos hlpos hgpos
        · exact hdrl.length_pos x (by simp [hx])
      have hcells := Except.ok.inj (hmerge.symm.trans hresult)
      have hbefore := congrArg beforeEnd hcells
      rwa [beforeEnd_append slack' hspans.length_pos drl.stop_length, ← cons_append,
        beforeEnd_append _ hpos drl.stop_length] at hbefore
    subst hsame
    let stale := l.merge g :: tail ++ [drl.stop]
    have hdrop : ∀ x ∈ stale.drop (tail.length + 2), 0 < x.length := by simp [stale]
    obtain ⟨slack'', hrestore⟩ := restoreMarker_spec hdrop (by simp [stale])
      drl.stop_length hgrant hstop hle
    let out : PartialRunlist :=
      { runs := l.merge g :: tail
        stop := drl.stop
        slack := unmappedGap drl.stop.vcn clusters ++ attributeEnd clusters :: slack''
        spans := hspans
        stop_length := drl.stop_length
        stop_lcn := drl.stop_lcn
        end_isS64 := drl.end_isS64
        lcn_inRange := hrange }
    refine ⟨out, ?_, rfl, ?_, hsep⟩
    · refine runlistsMerge_of_marker (mergePlan_base hbase drl hruns hlcn hb.ge hle) hresult rfl ?_
      simpa [stale, out, PartialRunlist.cells] using hrestore
    · intro vcn
      have hgap : lcnAt (unmappedGap drl.stop.vcn out.stop.vcn) vcn = none := by
        rw [unmappedGap_self]
        rfl
      rw [hgap, or_none]
      exact hat vcn

/-- A base extent of one cluster is taken for the whole attribute: its end is
never restored. -/
lemma runlistsMerge_base_single (hl : Chain 0 [l] 1) (hrange : LcnInRange l) (hpost : post ≠ []) :
    ∃ out, runlistsMerge heap (some drl.cells) (some [l, attributeEnd 1]) = .ok (some out.cells) ∧
      out.stop.lcn = lcnRlNotMapped ∧
        Pending clusters (fun vcn => free vcn ∧ ¬ (0 ≤ vcn ∧ vcn < 1)) out := by
  have hspans := drl.spans
  have hdrange := drl.lcn_inRange
  have hsep := hpending.separated
  have hpositive := drl.spans.length_pos
  rw [hruns] at hspans hdrange hsep hpositive
  obtain ⟨hvcn, hpos, _, hrest⟩ := hspans
  have hlonger : e.stopVcn < drl.stop.vcn := by
    have := hrest.lt_of_ne_nil hpost
    unfold RunlistElement.stopVcn
    omega
  have hlvcn : l.vcn = 0 := hl.1
  have hlstop : l.stopVcn = 1 := hl.spans.getLast_stopVcn rfl
  have hsource : Source [] [] l [] (attributeEnd 1) 0 1 :=
    ⟨by simp, hl, by simp, rfl, (by decide : lcnEnoent < lcnHole)⟩
  have hestop : 0 < e.stopVcn := by
    unfold RunlistElement.stopVcn
    omega
  have hplan := mergePlan_eq heap drl.slack [] hsource (z := l) rfl
    (fun x hx => absurd hx not_mem_nil) hpositive drl.stop_length rfl
    (.inr hestop) (hlcn ▸ lcnRlNotMapped_neg)
  have hlong : decide (e.length = 0) = false := by simpa using hpos.ne'
  have hcover : decide (0 < e.stopVcn) = true := by simpa using hestop
  have hfirst : decide (e.vcn = 0) = true := by simpa using hvcn
  simp only [hlong, hfirst, hlvcn, hcover, attributeEnd, length_nil, zero_add] at hplan
  -- The rest of the unmapped run stays after the cluster, with length zero if nothing is left.
  let hole : RunlistElement := { e with vcn := 1, length := e.stopVcn - 1 }
  obtain ⟨slack', hinsert⟩ := rlInsert_spec hgrant [] (post ++ [drl.stop]) drl.slack []
    [attributeEnd 1] e l l l rfl (by simp [gapBefore, hlvcn]) rfl (.inl (by simp))
  have hnext : nextVcn (post ++ [drl.stop]) = e.stopVcn := by
    rw [hrest.nextVcn_append [] rfl, ← hvcn]
    rfl
  have hafter : afterInsert e l.stopVcn (nextVcn (post ++ [drl.stop])) = hole := by
    rw [afterInsert, if_pos (.inr hlcn), hnext, hlstop]
  rw [hafter] at hinsert
  have hmerge : runlistsMerge heap (some drl.cells) (some [l, attributeEnd 1]) =
      .ok (some (l :: hole :: (post ++ drl.stop :: slack'))) := by
    have hdrop : ∀ x ∈ (l :: hole :: post).drop (post.length + 1), 0 < x.length := by
      cases post with
      | nil => exact absurd rfl hpost
      | cons g tail =>
        intro x hx
        exact hpositive x (mem_cons_of_mem _ (mem_of_mem_drop (i := tail.length) hx))
    have hbeyond : 1 < drl.stop.vcn := by omega
    have hrestore := restoreMarker_beyond hdrop (by simp) drl.stop_length heap slack' hbeyond
    rw [PartialRunlist.cells, hruns]
    refine runlistsMerge_of_marker hplan ?_ rfl hrestore
    rw [mergeAs]
    simpa [joinLeft, joinsLeft] using hinsert
  have hend := isS64_iff.mp drl.end_isS64
  by_cases hone : e.stopVcn = 1
  · let out : PartialRunlist :=
      { runs := [l]
        stop := hole
        slack := post ++ drl.stop :: slack'
        spans := hl.spans
        stop_length := by simp [hole, hone]
        stop_lcn := .inr hlcn
        end_isS64 := show IsS64 1 from isS64_iff.mpr (by decide)
        lcn_inRange := by simpa using hrange }
    refine ⟨out, hmerge, hlcn, ?_, ?_, ?_, ?_⟩
    · exact isChain_singleton _
    · have := hpending.stop_le
      change 1 ≤ clusters
      omega
    · intro _
      exact hl.lcnAt_ne_notMapped
    · rintro vcn ⟨_, hout⟩
      rw [hl.lcnAt_eq_none (by omega)]
      rfl
  · have hcut : e.cut 1 e.stopVcn = [hole] := by
      rw [RunlistElement.cut, if_pos (by omega)]
    have hcut' : e.cut e.vcn 0 = [] := by
      rw [RunlistElement.cut, if_neg (by omega)]
    have hlist : overlay [] e post [l] 0 1 = l :: hole :: post := by
      simp [overlay, hcut, hcut']
    have hneg : e.lcn < 0 := hlcn ▸ lcnRlNotMapped_neg
    have hwhole : Spans 0 ([] ++ e :: post) drl.stop.vcn := hruns ▸ drl.spans
    have hstart : (1 : Int) ≤ e.stopVcn := by omega
    let out : PartialRunlist :=
      { runs := l :: hole :: post
        stop := drl.stop
        slack := slack'
        spans := hlist ▸ overlay_spans hwhole hl hvcn.le hstart
        stop_length := drl.stop_length
        stop_lcn := drl.stop_lcn
        end_isS64 := drl.end_isS64
        lcn_inRange := by
          rw [← hlist]
          refine overlay_lcnInRange hdrange (by simpa using hrange) hneg hvcn.ge ?_ ?_ ?_
          · exact isS64_iff.mpr (by decide)
          · decide
          · exact isS64_iff.mpr (by omega) }
    have hat : ∀ vcn, ¬ (0 ≤ vcn ∧ vcn < 1) → lcnAt out.runs vcn = lcnAt drl.runs vcn := by
      intro vcn hout
      change lcnAt (l :: hole :: post) vcn = _
      rw [← hlist, lcnAt_overlay hwhole hl hneg hvcn.le hstart, if_neg hout, hruns]
      rfl
    refine ⟨out, hmerge, hstop, ?_, hpending.stop_le, ?_, ?_⟩
    · have hsep' : Separated ([] ++ e :: post) := hsep
      change Separated (l :: hole :: post)
      rw [← hlist]
      exact overlay_separated hsep' (by simp) hl.hole_le
    · intro hbefore
      rw [hat _ (by change ¬ (0 ≤ drl.stop.vcn - 1 ∧ drl.stop.vcn - 1 < 1); omega)]
      exact hpending.last_mapped hbefore
    · rintro vcn ⟨hfree, hout⟩
      rw [hat vcn hout]
      exact hpending.unmapped vcn hfree

end

end Base

end NtfsDxe
