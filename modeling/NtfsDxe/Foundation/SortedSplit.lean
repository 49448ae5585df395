import Mathlib.Tactic.Common

/-! # Sorted lists around a key

A list that is sorted by a comparison falls into the elements before a key, those that compare
equal to it and those after it. A loop that walks through such a list and decides at each
element by the comparison with the key can be followed part by part.
-/

namespace Foundation.SortedSplit

variable {α κ : Type*}

/-- The list `l` in three parts, for a key that compares with its elements by `c`. -/
structure Split (c : α → Ordering) (l before same after : List α) : Prop where
  eq : l = before ++ (same ++ after)
  before_gt : ∀ a ∈ before, c a = .gt
  same_eq : ∀ a ∈ same, c a = .eq
  after_lt : ∀ a ∈ after, c a = .lt

lemma Split.mem_same (h : Split c l before same after) (ha : a ∈ l) (heq : c a = .eq) :
    a ∈ same := by
  rw [h.eq, List.mem_append, List.mem_append] at ha
  rcases ha with hbefore | hsame | hafter
  · cases heq.symm.trans (h.before_gt a hbefore)
  · exact hsame
  · cases heq.symm.trans (h.after_lt a hafter)

lemma Split.index_iff (h : Split c l before same after) (ha : l[i]? = some a) :
    c a = .eq ↔ before.length ≤ i ∧ i < before.length + same.length := by
  rw [h.eq] at ha
  rcases Nat.lt_or_ge i before.length with hbefore | hbefore
  · rw [List.getElem?_append_left hbefore] at ha
    have hgt := h.before_gt a (List.mem_of_getElem? ha)
    exact iff_of_false (by rw [hgt]; decide) (by omega)
  rw [List.getElem?_append_right hbefore] at ha
  rcases Nat.lt_or_ge (i - before.length) same.length with hsame | hsame
  · rw [List.getElem?_append_left hsame] at ha
    exact iff_of_true (h.same_eq a (List.mem_of_getElem? ha)) (by omega)
  · rw [List.getElem?_append_right hsame] at ha
    have hlt := h.after_lt a (List.mem_of_getElem? ha)
    exact iff_of_false (by rw [hlt]; decide) (by omega)

/-- Along the list the key does not come to be greater again. -/
def Descends (c : α → Ordering) (l : List α) : Prop :=
  l.Pairwise fun a b => (c a = .lt → c b = .lt) ∧ (c a = .eq → c b ≠ .gt)

lemma Descends.exists_split (h : Descends c l) :
    ∃ before same after, Split c l before same after := by
  induction l with
  | nil => exact ⟨[], [], [], rfl, by simp, by simp, by simp⟩
  | cons a l ih =>
    rw [Descends, List.pairwise_cons] at h
    obtain ⟨before, same, after, hsplit⟩ := ih h.2
    cases ha : c a with
    | gt =>
      refine ⟨a :: before, same, after, by rw [hsplit.eq]; rfl, ?_, hsplit.same_eq, hsplit.after_lt⟩
      rintro b (_ | ⟨_, hb⟩)
      · exact ha
      · exact hsplit.before_gt b hb
    | lt =>
      have hall : ∀ b ∈ l, c b = .lt := fun b hb => (h.1 b hb).1 ha
      refine ⟨[], [], a :: l, rfl, by simp, by simp, ?_⟩
      rintro b (_ | ⟨_, hb⟩)
      · exact ha
      · exact hall b hb
    | eq =>
      have hnone : before = [] := by
        cases before with
        | nil => rfl
        | cons b before =>
          have hmem : b ∈ l := by
            rw [hsplit.eq]
            exact List.mem_cons_self
          exact absurd (hsplit.before_gt b List.mem_cons_self) ((h.1 b hmem).2 ha)
      refine ⟨[], a :: same, after, by rw [hsplit.eq, hnone]; rfl, by simp, ?_, hsplit.after_lt⟩
      rintro b (_ | ⟨_, hb⟩)
      · exact ha
      · exact hsplit.same_eq b hb

/-- A comparison of the images under a function. -/
lemma transCmp_on {cmp : κ → κ → Ordering} [Std.TransCmp cmp] (f : α → κ) :
    Std.TransCmp fun a b => cmp (f a) (f b) where
  eq_swap {a b} := @Std.OrientedCmp.eq_swap _ cmp _ (f a) (f b)
  isLE_trans {a b c} := @Std.TransCmp.isLE_trans _ cmp _ (f a) (f b) (f c)

lemma descends_of_sorted {cmp : κ → κ → Ordering} [Std.TransCmp cmp] {key : α → κ}
    (h : l.Pairwise fun a b => (cmp (key a) (key b)).isLE) (k : κ) :
    Descends (fun a => cmp k (key a)) l := by
  refine h.imp fun {a b} hab => ⟨fun hlt => ?_, fun heq hgt => ?_⟩
  · exact Std.TransCmp.lt_of_lt_of_isLE hlt hab
  · change cmp k (key a) = .eq at heq
    change cmp k (key b) = .gt at hgt
    have hle : (cmp k (key b)).isLE := by
      refine Std.TransCmp.isLE_trans ?_ hab
      rw [heq]
      rfl
    rw [hgt] at hle
    cases hle

/-- Between two parts of a sorted list an element that is not above the second part can be
inserted if it is not below the first. -/
lemma insert_sorted_iff {R : α → α → Prop} {before after : List α} {x : α}
    (h : (before ++ after).Pairwise R) (hafter : ∀ b ∈ after, R x b) :
    (before ++ x :: after).Pairwise R ↔ ∀ a ∈ before, R a x := by
  rw [List.pairwise_append] at h
  rw [List.pairwise_append, List.pairwise_cons]
  constructor
  · intro hinsert a ha
    exact hinsert.2.2 a ha x List.mem_cons_self
  · intro hbefore
    refine ⟨h.1, ⟨hafter, h.2.1⟩, ?_⟩
    rintro a ha b (_ | ⟨_, hb⟩)
    · exact hbefore a ha
    · exact h.2.2 a ha b hb

end Foundation.SortedSplit
