import NtfsDxe.Runlist.Chain

/-! # Runlists with parts that are not mapped

While the extents of an attribute are read, its runlist contains runs that stand
for clusters not looked up yet. Such a list still covers an interval of
attribute clusters, and a lookup in the array reports the marker of the run, or
of the terminator after the last run.
-/

namespace NtfsDxe

open List

/-- The runs cover the attribute clusters from `a` up to `b` in order, mapped or not. -/
def Spans : Int → List RunlistElement → Int → Prop
  | a, [], b => a = b
  | a, e :: rest, b =>
    e.vcn = a ∧ 0 < e.length ∧ lcnRlNotMapped ≤ e.lcn ∧ Spans (a + e.length) rest b

lemma Chain.spans (hchain : Chain a runs b) : Spans a runs b := by
  induction runs generalizing a with
  | nil => exact hchain
  | cons e rest ih =>
    obtain ⟨hvcn, hpos, hlcn, hrest⟩ := hchain
    have hmapped : lcnRlNotMapped ≤ e.lcn := le_trans (by decide) hlcn
    exact ⟨hvcn, hpos, hmapped, ih hrest⟩

lemma Chain.hole_le (hchain : Chain a runs b) : ∀ e ∈ runs, lcnHole ≤ e.lcn := by
  induction runs generalizing a with
  | nil => simp
  | cons e rest ih =>
    obtain ⟨_, _, hlcn, hrest⟩ := hchain
    intro e' he'
    rcases mem_cons.mp he' with rfl | htail
    · exact hlcn
    · exact ih hrest e' htail

section

variable (hspans : Spans a runs b)
include hspans

lemma Spans.le : a ≤ b := by
  induction runs generalizing a with
  | nil => exact le_of_eq hspans
  | cons e rest ih =>
    obtain ⟨_, hpos, _, hrest⟩ := hspans
    have := ih hrest
    omega

lemma Spans.lt_of_ne_nil (hne : runs ≠ []) : a < b := by
  cases runs with
  | nil => exact absurd rfl hne
  | cons e rest =>
    obtain ⟨_, hpos, _, hrest⟩ := hspans
    have := hrest.le
    omega

lemma Spans.length_pos : ∀ e ∈ runs, 0 < e.length := by
  induction runs generalizing a with
  | nil => simp
  | cons e rest ih =>
    obtain ⟨_, hpos, _, hrest⟩ := hspans
    intro e' he'
    rcases mem_cons.mp he' with rfl | htail
    · exact hpos
    · exact ih hrest e' htail

lemma Spans.stop_le : ∀ e ∈ runs, e.vcn + e.length ≤ b := by
  induction runs generalizing a with
  | nil => simp
  | cons e rest ih =>
    obtain ⟨hvcn, _, _, hrest⟩ := hspans
    have hle := hrest.le
    intro e' he'
    rcases mem_cons.mp he' with rfl | htail
    · omega
    · exact ih hrest e' htail

lemma Spans.start_le : ∀ e ∈ runs, a ≤ e.vcn := by
  induction runs generalizing a with
  | nil => simp
  | cons e rest ih =>
    obtain ⟨hvcn, hpos, _, hrest⟩ := hspans
    intro e' he'
    rcases mem_cons.mp he' with rfl | htail
    · exact le_of_eq hvcn.symm
    · have := ih hrest e' htail
      omega

/-- The interval of a list is as long as its runs together. -/
lemma Spans.eq_add_sum : b = a + (runs.map (·.length)).sum := by
  induction runs generalizing a with
  | nil => simpa using (show a = b from hspans).symm
  | cons e rest ih =>
    have hrest := ih hspans.2.2.2
    rw [map_cons, sum_cons]
    omega

end

lemma spans_append_iff : Spans a (xs ++ ys) c ↔ ∃ b, Spans a xs b ∧ Spans b ys c := by
  induction xs generalizing a with
  | nil =>
    constructor
    · intro hys
      exact ⟨a, rfl, hys⟩
    · rintro ⟨b, hab, hys⟩
      rwa [show a = b from hab]
  | cons e rest ih =>
    rw [cons_append, Spans, ih]
    constructor
    · rintro ⟨hvcn, hpos, hlcn, b, hrest, hys⟩
      exact ⟨b, ⟨hvcn, hpos, hlcn, hrest⟩, hys⟩
    · rintro ⟨b, ⟨hvcn, hpos, hlcn, hrest⟩, hys⟩
      exact ⟨hvcn, hpos, hlcn, b, hrest, hys⟩

lemma Spans.append (hxs : Spans a xs b) (hys : Spans b ys c) : Spans a (xs ++ ys) c :=
  spans_append_iff.mpr ⟨b, hxs, hys⟩

/-- The first run after the covered interval starts where the interval ends. -/
lemma Spans.nextVcn_append (slack : List RunlistElement) (hspans : Spans a runs b)
    (ht : t.vcn = b) : nextVcn (runs ++ t :: slack) = a := by
  cases runs with
  | nil => exact ht.trans (show b = a from hspans.symm)
  | cons e rest => exact hspans.1

/-! ## Lookup -/

/-- Nothing is mapped outside the covered interval. -/
lemma Spans.lcnAt_eq_none (hspans : Spans a runs b) (hout : vcn < a ∨ b ≤ vcn) :
    lcnAt runs vcn = none := by
  induction runs generalizing a with
  | nil => rfl
  | cons e rest ih =>
    obtain ⟨hvcn, hpos, _, hrest⟩ := hspans
    have hle := hrest.le
    rw [lcnAt, if_neg (by omega)]
    exact ih hrest (by omega)

/-- Every cluster of the covered interval belongs to a run. -/
lemma Spans.lcnAt_isSome (hspans : Spans a runs b) (hin : a ≤ vcn ∧ vcn < b) :
    (lcnAt runs vcn).isSome := by
  induction runs generalizing a with
  | nil =>
    have hab : a = b := hspans
    omega
  | cons e rest ih =>
    obtain ⟨hvcn, hpos, _, hrest⟩ := hspans
    rw [lcnAt]
    split
    · rfl
    · exact ih hrest (by omega)

/-- The lookup loop reports the run of a cluster, and the marker of the
terminator from the end of the covered interval on. What lies in memory after
the terminator is not read. -/
lemma Spans.findLcn_eq (hspans : Spans a runs b) (ht : t.vcn = b) (hlen : t.length = 0)
    (hmarker : t.lcn < 0) (hrange : ∀ e ∈ runs, LcnInRange e) (ha : a ≤ vcn) :
    findLcn (runs ++ t :: slack) vcn = (lcnAt runs vcn).getD t.lcn := by
  induction runs generalizing a with
  | nil =>
    rw [nil_append, findLcn, if_pos hlen, if_pos hmarker]
    rfl
  | cons e rest ih =>
    obtain ⟨hvcn, hpos, _, hrest⟩ := hspans
    have hnext := hrest.nextVcn_append slack ht
    rw [cons_append, findLcn, if_neg (by omega), hnext, lcnAt]
    by_cases hin : vcn < a + e.length
    · have hcovered : e.vcn ≤ vcn ∧ vcn < e.vcn + e.length := by omega
      rw [if_pos hin, RunlistElement.lcnOf]
      split
      next hmapped =>
        have hlast := hrange e mem_cons_self
        unfold LcnInRange at hlast
        apply s64_of_isS64
        rw [isS64_iff]
        omega
      next => rfl
    · rw [if_neg hin, if_neg (by omega)]
      exact ih hrest (fun e he => hrange e (mem_cons_of_mem _ he)) (by omega)

/-- Lookup in an array that starts at the first cluster of the attribute. -/
lemma Spans.rlVcnToLcn_eq (slack : List RunlistElement) (hspans : Spans 0 runs b)
    (ht : t.vcn = b) (hlen : t.length = 0) (hmarker : t.lcn < 0)
    (hrange : ∀ e ∈ runs, LcnInRange e) (hvcn : 0 ≤ vcn) :
    rlVcnToLcn (some (runs ++ t :: slack)) vcn = (lcnAt runs vcn).getD t.lcn := by
  rw [rlVcnToLcn, if_neg (by omega), hspans.nextVcn_append slack ht, if_neg (by omega)]
  exact hspans.findLcn_eq ht hlen hmarker hrange hvcn

end NtfsDxe
