import Mathlib.Data.List.Nodup

/-! # Doubly linked lists through their nodes

The nodes of the list hold the links themselves. A node that is not in the list
has links too, which say nothing.
-/

namespace Foundation.IntrusiveList

open List Function

/-- The first node and the two links of every node. -/
structure Links (α : Type*) where
  first : Option α
  next : α → Option α
  prev : α → Option α

namespace Links

variable {α : Type*}

/-- From `node` on, where `before` is the node in front of it, the list is `xs`: the
nodes follow each other by `next`, and `prev` leads back. -/
def Follows (l : Links α) : (before node : Option α) → List α → Prop
  | _, node, [] => node = none
  | before, node, x :: xs => node = some x ∧ l.prev x = before ∧ l.Follows (some x) (l.next x) xs

/-- The list is `xs`. -/
def Lists (l : Links α) (xs : List α) : Prop := l.Follows none l.first xs

variable {l l' : Links α}

lemma Follows.unique (hx : l.Follows before node xs) (hy : l.Follows before node ys) : xs = ys := by
  induction xs generalizing before node ys with
  | nil =>
    cases ys with
    | nil => rfl
    | cons y ys => cases hx.symm.trans hy.1
  | cons x xs ih =>
    cases ys with
    | nil => cases hx.1.symm.trans hy
    | cons y ys =>
      obtain rfl : x = y := Option.some.inj (hx.1.symm.trans hy.1)
      rw [ih hx.2.2 hy.2.2]

/-- Only one list is read off the links. -/
lemma Lists.unique (hx : l.Lists xs) (hy : l.Lists ys) : xs = ys :=
  Follows.unique hx hy

lemma Lists.nil_of_first (hx : l.Lists xs) (hfirst : l.first = none) : xs = [] := by
  cases xs with
  | nil => rfl
  | cons x xs => cases hfirst.symm.trans hx.1

lemma Lists.first_mem (hx : l.Lists xs) (hfirst : l.first = some x) : x ∈ xs := by
  cases xs with
  | nil => cases hfirst.symm.trans hx
  | cons y ys =>
    obtain rfl : x = y := Option.some.inj (hfirst.symm.trans hx.1)
    exact mem_cons_self

/-- Links outside the list do not matter. -/
lemma Follows.congr (h : l.Follows before node xs) (hnext : ∀ x ∈ xs, l'.next x = l.next x)
    (hprev : ∀ x ∈ xs, l'.prev x = l.prev x) : l'.Follows before node xs := by
  induction xs generalizing before node with
  | nil => exact h
  | cons x xs ih =>
    obtain ⟨hnode, hback, hrest⟩ := h
    refine ⟨hnode, (hprev x mem_cons_self).trans hback, ?_⟩
    rw [hnext x mem_cons_self]
    exact ih hrest (fun y hy => hnext y (mem_cons_of_mem x hy))
      (fun y hy => hprev y (mem_cons_of_mem x hy))

lemma Lists.congr (h : l.Lists xs) (hfirst : l'.first = l.first)
    (hnext : ∀ x ∈ xs, l'.next x = l.next x) (hprev : ∀ x ∈ xs, l'.prev x = l.prev x) :
    l'.Lists xs := by
  rw [Lists, hfirst]
  exact Follows.congr h hnext hprev

/-- A neighbour of a node in the list is in the list as well. -/
lemma Follows.next_mem (h : l.Follows before node xs) (hx : x ∈ xs) (hnext : l.next x = some y) :
    y ∈ xs := by
  induction xs generalizing before node with
  | nil => cases hx
  | cons z zs ih =>
    obtain ⟨-, -, hrest⟩ := h
    rcases mem_cons.mp hx with rfl | hx
    · cases zs with
      | nil => cases hnext.symm.trans hrest
      | cons w ws =>
        obtain rfl : y = w := Option.some.inj (hnext.symm.trans hrest.1)
        exact mem_cons_of_mem _ mem_cons_self
    · exact mem_cons_of_mem _ (ih hrest hx)

lemma Follows.prev_mem (h : l.Follows before node xs) (hx : x ∈ xs) (hprev : l.prev x = some y) :
    before = some y ∨ y ∈ xs := by
  induction xs generalizing before node with
  | nil => cases hx
  | cons z zs ih =>
    obtain ⟨-, hback, hrest⟩ := h
    rcases mem_cons.mp hx with rfl | hx
    · exact .inl (hback.symm.trans hprev)
    · rcases ih hrest hx with hy | hy
      · obtain rfl : z = y := Option.some.inj hy
        exact .inr mem_cons_self
      · exact .inr (mem_cons_of_mem _ hy)

lemma Lists.next_mem (h : l.Lists xs) (hx : x ∈ xs) (hnext : l.next x = some y) : y ∈ xs :=
  Follows.next_mem h hx hnext

lemma Lists.prev_mem (h : l.Lists xs) (hx : x ∈ xs) (hprev : l.prev x = some y) : y ∈ xs := by
  rcases Follows.prev_mem h hx hprev with hy | hy
  · cases hy
  · exact hy

lemma Follows.prev_eq (h : l.Follows before node (ws ++ w :: x :: ys)) : l.prev x = some w := by
  induction ws generalizing before node with
  | nil => exact h.2.2.2.1
  | cons v ws ih => exact ih h.2.2

variable [DecidableEq α]

/-- Insert `x` in front of the first node. -/
def pushFront (l : Links α) (x : α) : Links α where
  first := some x
  next := update l.next x l.first
  prev := update
    (match l.first with
      | some y => update l.prev y (some x)
      | none => l.prev) x none

lemma pushFront_prev_of_ne (hyx : y ≠ x) (hfirst : l.first ≠ some y) :
    (l.pushFront x).prev y = l.prev y := by
  cases h : l.first with
  | none => simp [pushFront, h, hyx]
  | some z =>
    have hyz : y ≠ z := by
      rintro rfl
      exact hfirst h
    simp [pushFront, h, hyx, hyz]

lemma Lists.pushFront (h : l.Lists xs) (hnodup : xs.Nodup) (hx : x ∉ xs) :
    (l.pushFront x).Lists (x :: xs) := by
  have hnext : ∀ y ∈ xs, (l.pushFront x).next y = l.next y := by
    intro y hy
    apply update_of_ne
    rintro rfl
    exact hx hy
  refine ⟨rfl, update_self .., ?_⟩
  have hfirst : (l.pushFront x).next x = l.first := update_self ..
  rw [hfirst]
  cases xs with
  | nil => exact h
  | cons y ys =>
    obtain ⟨hnode, -, hrest⟩ := h
    have hyx : y ≠ x := by
      rintro rfl
      exact hx mem_cons_self
    -- only the node that was first gets a new link back
    refine ⟨hnode, ?_, ?_⟩
    · simp [Links.pushFront, hnode, hyx]
    · rw [hnext y mem_cons_self]
      apply hrest.congr (fun z hz => hnext z (mem_cons_of_mem y hz))
      intro z hz
      apply pushFront_prev_of_ne
      · rintro rfl
        exact hx (mem_cons_of_mem y hz)
      · intro heq
        obtain rfl : y = z := Option.some.inj (hnode.symm.trans heq)
        exact (nodup_cons.mp hnodup).1 hz

/-- Take `x` out, going by its own links. -/
def unlink (l : Links α) (x : α) : Links α where
  first :=
    match l.prev x with
    | some _ => l.first
    | none => l.next x
  next :=
    match l.prev x with
    | some y => update l.next y (l.next x)
    | none => l.next
  prev :=
    match l.next x with
    | some y => update l.prev y (l.prev x)
    | none => l.prev

/-- The part of the list from the removed node on. -/
lemma Follows.after_unlink (hback : l.prev x = before) (h : l.Follows (some x) (l.next x) ys)
    (hnodup : ys.Nodup) (hbefore : ∀ y, before = some y → y ∉ ys) :
    (l.unlink x).Follows before (l.next x) ys := by
  have hnext : ∀ y ∈ ys, (l.unlink x).next y = l.next y := by
    intro y hy
    rw [unlink, hback]
    cases hb : before with
    | none => rfl
    | some z =>
      apply update_of_ne
      rintro rfl
      exact hbefore y hb hy
  cases ys with
  | nil => exact h
  | cons y ys =>
    obtain ⟨hnode, -, hrest⟩ := h
    refine ⟨hnode, by simp [unlink, hnode, hback], ?_⟩
    rw [hnext y mem_cons_self]
    apply hrest.congr (fun z hz => hnext z (mem_cons_of_mem y hz))
    intro z hz
    have hzy : z ≠ y := by
      rintro rfl
      exact (nodup_cons.mp hnodup).1 hz
    simp [unlink, hnode, hzy]

/-- The nodes in front of the removed one, where `w` is the last of them. -/
lemma Follows.unlink (h : l.Follows before node (ws ++ w :: x :: ys))
    (hnodup : (ws ++ w :: x :: ys).Nodup) : (l.unlink x).Follows before node (ws ++ w :: ys) := by
  have hprev : l.prev x = some w := h.prev_eq
  induction ws generalizing before node with
  | nil =>
    obtain ⟨hnode, hback, -, -, hys⟩ := h
    obtain ⟨hw, hnodup⟩ := nodup_cons.mp hnodup
    obtain ⟨-, hnodup⟩ := nodup_cons.mp hnodup
    have hafter : (l.unlink x).Follows (some w) (l.next x) ys := by
      apply Follows.after_unlink hprev hys hnodup
      intro y hy hmem
      obtain rfl : w = y := Option.some.inj hy
      exact hw (mem_cons_of_mem x hmem)
    refine ⟨hnode, ?_, by simpa [Links.unlink, hprev] using hafter⟩
    cases hn : l.next x with
    | none => simp [Links.unlink, hn, hback]
    | some z =>
      have hz : z ∈ ys := by
        cases ys with
        | nil => cases hn.symm.trans hys
        | cons y ys =>
          obtain rfl : z = y := Option.some.inj (hn.symm.trans hys.1)
          exact mem_cons_self
      have hwz : w ≠ z := by
        rintro rfl
        exact hw (mem_cons_of_mem x hz)
      simp [Links.unlink, hn, hwz, hback]
  | cons v ws ih =>
    obtain ⟨hnode, hback, hrest⟩ := h
    obtain ⟨hv, hnodup⟩ := nodup_cons.mp hnodup
    -- neither neighbour of `x` is `v`, so both links of `v` stay
    have hvw : v ≠ w := by
      rintro rfl
      exact hv (by simp)
    refine ⟨hnode, ?_, by simpa [Links.unlink, hprev, hvw] using ih hrest hnodup⟩
    cases hn : l.next x with
    | none => simp [Links.unlink, hn, hback]
    | some z =>
      have hz := hrest.next_mem (by simp) hn
      have hvz : v ≠ z := by
        rintro rfl
        exact hv hz
      simp [Links.unlink, hn, hvz, hback]

lemma Lists.unlink (h : l.Lists xs) (hnodup : xs.Nodup) (hx : x ∈ xs) :
    (l.unlink x).Lists (xs.erase x) := by
  obtain ⟨ws, ys, rfl⟩ := append_of_mem hx
  have hxw : x ∉ ws := by
    intro hmem
    exact disjoint_of_nodup_append hnodup hmem mem_cons_self
  rw [erase_append_right _ hxw, erase_cons_head]
  rcases eq_nil_or_concat' ws with rfl | ⟨ws, w, rfl⟩
  · obtain ⟨hfirst, hprev, hys⟩ := h
    have hfirst' : (l.unlink x).first = l.next x := by simp [Links.unlink, hprev]
    rw [Lists, hfirst']
    apply Follows.after_unlink hprev hys (nodup_cons.mp hnodup).2
    intro y hy
    cases hy
  · rw [append_assoc] at h hnodup ⊢
    have hprev : l.prev x = some w := Follows.prev_eq h
    have hfirst' : (l.unlink x).first = l.first := by simp [Links.unlink, hprev]
    rw [Lists, hfirst']
    exact Follows.unlink h hnodup

/-- The links of a node outside the list are not touched. -/
lemma Lists.unlink_next (h : l.Lists xs) (hx : x ∈ xs) (hy : y ∉ xs) :
    (l.unlink x).next y = l.next y := by
  cases hp : l.prev x with
  | none => simp [Links.unlink, hp]
  | some z =>
    have hyz : y ≠ z := by
      rintro rfl
      exact hy (h.prev_mem hx hp)
    simp [Links.unlink, hp, hyz]

lemma Lists.unlink_prev (h : l.Lists xs) (hx : x ∈ xs) (hy : y ∉ xs) :
    (l.unlink x).prev y = l.prev y := by
  cases hn : l.next x with
  | none => simp [Links.unlink, hn]
  | some z =>
    have hyz : y ≠ z := by
      rintro rfl
      exact hy (h.next_mem hx hn)
    simp [Links.unlink, hn, hyz]

end Links

end Foundation.IntrusiveList
