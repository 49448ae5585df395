import NtfsDxe.Runlist.Merge
import NtfsDxe.Runlist.Spans
import Mathlib.Data.List.Chain

/-! # Overlaying runs

The purpose of a merge is to change what a part of one hole or unmapped run maps
to, and nothing else. The overlay of a run with other runs says this without the
array, and without the runs being joined to their neighbours. Joining adjacent
runs afterwards does not change the map.
-/

namespace NtfsDxe

open List Option

/-! ## Joining adjacent runs -/

/-- The second run continues the first one, on the volume or as a hole. -/
def Adjacent (e f : RunlistElement) : Prop :=
  e.stopVcn = f.vcn ∧
    ((0 ≤ e.lcn ∧ 0 ≤ f.lcn ∧ e.lcn + e.length = f.lcn) ∨ (e.lcn = lcnHole ∧ f.lcn = lcnHole))

variable {e f : RunlistElement}

/-- Runs are joined only when one continues the other, unless both are unmapped. -/
lemma adjacent_of_mergeable (hmerge : rlAreMergeable e f = true)
    (hmapped : lcnHole ≤ e.lcn ∨ lcnHole ≤ f.lcn) : Adjacent e f := by
  unfold rlAreMergeable at hmerge
  split at hmerge
  next hboth =>
    rw [hboth.1, hboth.2] at hmapped
    exact absurd hmapped (by decide)
  next =>
    split at hmerge
    · cases hmerge
    next haligned =>
      split at hmerge
      next hcontiguous => exact ⟨not_not.mp haligned, .inl hcontiguous⟩
      next =>
        split at hmerge
        next hholes => exact ⟨not_not.mp haligned, .inr hholes⟩
        next => cases hmerge

section

variable (hadj : Adjacent e f)
include hadj

lemma Adjacent.mergeable : rlAreMergeable e f = true := by
  obtain ⟨hvcn, hcontiguous | hholes⟩ := hadj
  · have hmapped : ¬ (e.lcn = lcnRlNotMapped ∧ f.lcn = lcnRlNotMapped) := by
      rintro ⟨hlcn, _⟩
      rw [hlcn] at hcontiguous
      exact absurd hcontiguous.1 (by decide)
    rw [rlAreMergeable, if_neg hmapped, if_neg (not_not.mpr hvcn), if_pos hcontiguous]
  · obtain ⟨he, hf⟩ := hholes
    simp [rlAreMergeable, hvcn, he, hf]

/-- Only start and cluster number of the second run matter. -/
lemma Adjacent.congr_right (hvcn : g.vcn = f.vcn) (hlcn : g.lcn = f.lcn) : Adjacent e g := by
  unfold Adjacent
  rw [hvcn, hlcn]
  exact hadj

lemma Adjacent.hole_le_right : lcnHole ≤ f.lcn := by
  rcases hadj.2 with ⟨_, hmapped, _⟩ | ⟨_, hhole⟩
  · exact le_trans (by decide) hmapped
  · exact le_of_eq hhole.symm

lemma Adjacent.hole_le : lcnHole ≤ e.lcn := by
  rcases hadj.2 with ⟨hmapped, _⟩ | ⟨hhole, _⟩
  · exact le_trans (by decide) hmapped
  · exact le_of_eq hhole.symm

end

/-- The second list results from the first by joining adjacent runs. -/
inductive Joins : List RunlistElement → List RunlistElement → Prop where
  | refl (runs : List RunlistElement) : Joins runs runs
  | step (pre post : List RunlistElement) {e f : RunlistElement} {runs : List RunlistElement}
      (hadj : Adjacent e f) (hjoins : Joins (pre ++ e.merge f :: post) runs) :
      Joins (pre ++ e :: f :: post) runs

lemma Joins.single (pre post : List RunlistElement) (hadj : Adjacent e f) :
    Joins (pre ++ e :: f :: post) (pre ++ e.merge f :: post) :=
  .step pre post hadj (.refl _)

lemma Joins.trans (hxs : Joins xs ys) (hys : Joins ys zs) : Joins xs zs := by
  induction hxs with
  | refl => exact hys
  | step pre post hadj _ ih => exact .step pre post hadj (ih hys)

lemma spans_join (hspans : Spans a (e :: f :: post) b) : Spans a (e.merge f :: post) b := by
  obtain ⟨hvcn, hpos, hlcn, _, hpos', _, hrest⟩ := hspans
  refine ⟨hvcn, ?_, hlcn, ?_⟩
  · change 0 < e.length + f.length
    omega
  · rwa [add_assoc] at hrest

lemma Joins.spans (hjoins : Joins xs ys) (hspans : Spans a xs b) : Spans a ys b := by
  induction hjoins with
  | refl => exact hspans
  | step pre post _ _ ih =>
    obtain ⟨mid, hpre, hpost⟩ := spans_append_iff.mp hspans
    exact ih (hpre.append (spans_join hpost))

lemma lcnAt_join (hadj : Adjacent e f) (hspans : Spans a (e :: f :: post) b) :
    lcnAt (e.merge f :: post) vcn = lcnAt (e :: f :: post) vcn := by
  obtain ⟨_, hpos, _, hvcn, hpos', _⟩ := hspans
  obtain ⟨haligned, hlcn⟩ := hadj
  have hmerge : (e.merge f).vcn = e.vcn ∧ (e.merge f).lcn = e.lcn ∧
      (e.merge f).length = e.length + f.length := ⟨rfl, rfl, rfl⟩
  simp only [lcnAt, RunlistElement.lcnOf, hmerge]
  by_cases hin : e.vcn ≤ vcn ∧ vcn < e.vcn + e.length
  · rw [if_pos (by omega), if_pos hin]
  · rw [if_neg hin]
    by_cases hin' : f.vcn ≤ vcn ∧ vcn < f.vcn + f.length
    · rw [if_pos (by omega), if_pos hin']
      rcases hlcn with ⟨hmapped, hmapped', hcontiguous⟩ | ⟨hhole, hhole'⟩
      · congr 1
        omega
      · rw [hhole, hhole']
        rfl
    · rw [if_neg (by omega), if_neg hin']

/-- Joining runs does not change the map. -/
lemma Joins.lcnAt_eq (hjoins : Joins xs ys) (hspans : Spans a xs b) (vcn : Int) :
    lcnAt ys vcn = lcnAt xs vcn := by
  induction hjoins with
  | refl => rfl
  | step pre post hadj _ ih =>
    obtain ⟨mid, hpre, hpost⟩ := spans_append_iff.mp hspans
    rw [ih (hpre.append (spans_join hpost)), lcnAt_append, lcnAt_append, lcnAt_join hadj hpost]

lemma Joins.lcnInRange (hjoins : Joins xs ys) (hspans : Spans a xs b) (ha : 0 ≤ a)
    (hb : IsS64 b) (hrange : ∀ e ∈ xs, LcnInRange e) : ∀ e ∈ ys, LcnInRange e := by
  induction hjoins with
  | refl => exact hrange
  | @step pre post e f _ hadj _ ih =>
    obtain ⟨mid, hpre, hpost⟩ := spans_append_iff.mp hspans
    have hlast : LcnInRange (e.merge f) := by
      have hboth := hrange f (by simp)
      have hfirst := hrange e (by simp)
      obtain ⟨_, hpos, _, _, hpos', _, hrest⟩ := hpost
      have hle := hpre.le
      have hle' := hrest.le
      rw [isS64_iff] at hb
      unfold LcnInRange at hfirst hboth ⊢
      right
      change e.lcn + (e.length + f.length) ≤ 2 ^ 63
      rcases hadj.2 with ⟨_, _, hcontiguous⟩ | ⟨hhole, _⟩
      · omega
      · rw [hhole]
        unfold lcnHole
        omega
    apply ih (hpre.append (spans_join hpost))
    intro e' he'
    rcases mem_append.mp he' with hmem | hmem
    · exact hrange e' (by simp [hmem])
    · rcases mem_cons.mp hmem with rfl | hmem
      · exact hlast
      · exact hrange e' (by simp [hmem])

/-- Two neighbours that are not both unmapped. -/
def Apart (e f : RunlistElement) : Prop := e.lcn ≠ lcnRlNotMapped ∨ f.lcn ≠ lcnRlNotMapped

def Separated (runs : List RunlistElement) : Prop := List.IsChain Apart runs

lemma apart_of_hole_le_left (he : lcnHole ≤ e.lcn) : Apart e f := by
  refine .inl fun heq => ?_
  rw [heq] at he
  exact absurd he (by decide)

lemma apart_of_hole_le_right (hf : lcnHole ≤ f.lcn) : Apart e f := by
  refine .inr fun heq => ?_
  rw [heq] at hf
  exact absurd hf (by decide)

lemma Joins.separated (hjoins : Joins xs ys) (hsep : Separated xs) : Separated ys := by
  induction hjoins with
  | refl => exact hsep
  | @step pre post e f _ hadj _ ih =>
    apply ih
    have hmerge := hadj.hole_le
    obtain ⟨hpre, hpost, _⟩ := isChain_append.mp hsep
    have htail : Separated post := hpost.tail.tail
    refine isChain_append.mpr ⟨hpre, isChain_cons.mpr ⟨?_, htail⟩, ?_⟩
    · intro next _
      exact apart_of_hole_le_left hmerge
    · intro prev _ next hnext
      cases hnext
      exact apart_of_hole_le_right hmerge

/-! ## Cutting a run without clusters -/

/-- The part from `x` up to `y` of a run that maps to no clusters. -/
def RunlistElement.cut (e : RunlistElement) (x y : Int) : List RunlistElement :=
  if x < y then [{ e with vcn := x, length := y - x }] else []

lemma spans_cut (hlcn : lcnRlNotMapped ≤ e.lcn) (hxy : x ≤ y) : Spans x (e.cut x y) y := by
  unfold RunlistElement.cut
  split
  next hlt =>
    have hpos : 0 < y - x := by omega
    exact ⟨rfl, hpos, hlcn, by dsimp only [Spans]; omega⟩
  next hge => exact le_antisymm hxy (by omega)

lemma lcnAt_cut (hneg : e.lcn < 0) :
    lcnAt (e.cut x y) vcn = if x ≤ vcn ∧ vcn < y then some e.lcn else none := by
  unfold RunlistElement.cut
  split
  next hlt =>
    have hsum : x + (y - x) = y := by omega
    simp only [lcnAt, RunlistElement.lcnOf, hsum, if_neg (not_le.mpr hneg)]
  next hge =>
    rw [if_neg (by omega)]
    rfl

lemma cut_lcnInRange (hneg : e.lcn < 0) (hx : 0 ≤ x) (hy : IsS64 y) :
    ∀ f ∈ e.cut x y, LcnInRange f := by
  unfold RunlistElement.cut
  rw [isS64_iff] at hy
  split
  next hlt =>
    intro f hf
    obtain rfl := mem_singleton.mp hf
    right
    change e.lcn + (y - x) ≤ 2 ^ 63
    omega
  next => simp

lemma cut_lcn (hf : f ∈ e.cut x y) : f.lcn = e.lcn := by
  unfold RunlistElement.cut at hf
  split at hf
  · obtain rfl := mem_singleton.mp hf
    rfl
  · cases hf

/-! ## The overlay -/

/-- The list after the clusters from `a` up to `b`, all inside the run `e`, were
given to `body`. -/
def overlay (pre : List RunlistElement) (e : RunlistElement) (post body : List RunlistElement)
    (a b : Int) : List RunlistElement :=
  pre ++ (e.cut e.vcn a ++ (body ++ (e.cut b e.stopVcn ++ post)))

section Overlay

lemma overlay_spans (hspans : Spans first (pre ++ e :: post) last) (hbody : Chain a body b)
    (ha : e.vcn ≤ a) (hb : b ≤ e.stopVcn) : Spans first (overlay pre e post body a b) last := by
  obtain ⟨mid, hpre, hvcn, _, hlcn, hpost⟩ := spans_append_iff.mp hspans
  have hstop : mid + e.length = e.stopVcn := by
    rw [← hvcn]
    rfl
  rw [hstop] at hpost
  rw [← hvcn] at hpre
  exact hpre.append ((spans_cut hlcn ha).append (hbody.spans.append
    ((spans_cut hlcn hb).append hpost)))

/-- An overlay changes the map of the overlaid clusters only. -/
lemma lcnAt_overlay (hspans : Spans first (pre ++ e :: post) last) (hbody : Chain a body b)
    (hneg : e.lcn < 0) (ha : e.vcn ≤ a) (hb : b ≤ e.stopVcn) :
    lcnAt (overlay pre e post body a b) vcn =
      if a ≤ vcn ∧ vcn < b then lcnAt body vcn else lcnAt (pre ++ e :: post) vcn := by
  obtain ⟨mid, hpre, hvcn, _, _, hpost⟩ := spans_append_iff.mp hspans
  have hab := hbody.le
  have hstop : e.stopVcn = e.vcn + e.length := rfl
  simp only [overlay, lcnAt_append, lcnAt_cut hneg]
  by_cases hin : a ≤ vcn ∧ vcn < b
  · rw [if_pos hin, hpre.lcnAt_eq_none (.inr (by omega)), if_neg (by omega), none_or,
      none_or, or_of_isSome (hbody.lcnAt_isSome hin)]
  · rw [if_neg hin, hbody.lcnAt_eq_none (by omega), none_or, lcnAt, RunlistElement.lcnOf,
      if_neg (not_le.mpr hneg)]
    by_cases hrun : e.vcn ≤ vcn ∧ vcn < e.vcn + e.length
    · rw [if_pos hrun]
      by_cases hleft : vcn < a
      · rw [if_pos ⟨hrun.1, hleft⟩, some_or]
      · rw [if_neg (by omega), none_or, if_pos (by omega), some_or]
    · rw [if_neg hrun, if_neg (by omega), if_neg (by omega), none_or, none_or]

lemma separated_of_hole_le (hmapped : ∀ e ∈ runs, lcnHole ≤ e.lcn) : Separated runs := by
  induction runs with
  | nil => exact isChain_nil
  | cons e runs ih =>
    refine isChain_cons.mpr ⟨fun f _ => ?_, ih fun f hf => hmapped f (by simp [hf])⟩
    exact apart_of_hole_le_left (hmapped e mem_cons_self)

lemma separated_cut (e : RunlistElement) : Separated (e.cut x y) := by
  unfold RunlistElement.cut
  split
  · exact isChain_singleton _
  · exact isChain_nil

/-- Mapped runs in the place of a part of one run keep unmapped parts apart. -/
lemma overlay_separated (hsep : Separated (pre ++ e :: post)) (hne : body ≠ [])
    (hmapped : ∀ f ∈ body, lcnHole ≤ f.lcn) : Separated (overlay pre e post body a b) := by
  obtain ⟨hpre, hrest, hfirst⟩ := isChain_append.mp hsep
  obtain ⟨hsecond, hpost⟩ := isChain_cons.mp hrest
  obtain ⟨f, body', rfl⟩ := exists_cons_of_ne_nil hne
  refine isChain_append.mpr ⟨hpre, ?_, ?_⟩
  · refine isChain_append.mpr ⟨separated_cut _, ?_, ?_⟩
    · refine isChain_append.mpr ⟨separated_of_hole_le hmapped, ?_, ?_⟩
      · refine isChain_append.mpr ⟨separated_cut _, hpost, ?_⟩
        intro x hx y hy
        have hlcn := cut_lcn (mem_of_getLast? hx)
        rw [Apart, hlcn]
        exact hsecond y hy
      · intro x hx y _
        exact apart_of_hole_le_left (hmapped x (mem_of_getLast? hx))
    · intro x _ y hy
      cases hy
      exact apart_of_hole_le_right (hmapped f mem_cons_self)
  · intro x hx y hy
    rw [head?_append] at hy
    cases hcut : (e.cut e.vcn a).head? with
    | none =>
      rw [hcut] at hy
      cases hy
      exact apart_of_hole_le_right (hmapped f mem_cons_self)
    | some z =>
      rw [hcut] at hy
      cases hy
      have hlcn := cut_lcn (mem_of_head? hcut)
      rw [Apart, hlcn]
      exact hfirst x hx e rfl

lemma overlay_lcnInRange (hrange : ∀ f ∈ pre ++ e :: post, LcnInRange f)
    (hbodyRange : ∀ f ∈ body, LcnInRange f) (hneg : e.lcn < 0) (hvcn : 0 ≤ e.vcn) (ha : IsS64 a)
    (hb : 0 ≤ b) (hstop : IsS64 e.stopVcn) : ∀ f ∈ overlay pre e post body a b, LcnInRange f := by
  intro f hf
  simp only [overlay, mem_append] at hf
  rcases hf with hf | hf | hf | hf | hf
  · exact hrange f (by simp [hf])
  · exact cut_lcnInRange hneg hvcn ha f hf
  · exact hbodyRange f hf
  · exact cut_lcnInRange hneg hb hstop f hf
  · exact hrange f (by simp [hf])

end Overlay

end NtfsDxe
