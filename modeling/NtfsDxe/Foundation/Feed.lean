import Mathlib.Data.List.Basic

/-! # Feeding a callback

A producer offers the items of a list to a callback, which has a state of its own and
may refuse an item. A refused item and what follows it is left for another call.
-/

namespace Foundation.Feed

open List

variable {σ ε : Type*} (accept : σ → ε → σ × Int)

/-- Offer the items in order, up to the first one that is refused. The items that are
left begin with the refused one. -/
def feed : σ → List ε → σ × List ε
  | s, [] => (s, [])
  | s, x :: xs => if (accept s x).2 ≠ 0 then ((accept s x).1, x :: xs) else feed (accept s x).1 xs

@[simp] lemma feed_nil : feed accept s [] = (s, []) := rfl

lemma feed_refused (h : (accept s x).2 ≠ 0) (xs : List ε) :
    feed accept s (x :: xs) = ((accept s x).1, x :: xs) := by
  rw [feed, if_pos h]

lemma feed_accepted (h : (accept s x).2 = 0) :
    feed accept s (x :: xs) = feed accept (accept s x).1 xs := by
  rw [feed, if_neg (not_not.mpr h)]

lemma feed_append :
    feed accept s (xs ++ ys) =
      if (feed accept s xs).2 = [] then feed accept (feed accept s xs).1 ys
      else ((feed accept s xs).1, (feed accept s xs).2 ++ ys) := by
  induction xs generalizing s with
  | nil => rfl
  | cons x xs ih =>
    by_cases hx : (accept s x).2 = 0
    · rw [cons_append, feed_accepted accept hx, feed_accepted accept hx, ih]
    · rw [cons_append, feed_refused accept hx, feed_refused accept hx]
      rfl

lemma feed_suffix (s : σ) (xs : List ε) : (feed accept s xs).2 <:+ xs := by
  induction xs generalizing s with
  | nil => exact suffix_refl []
  | cons x xs ih =>
    by_cases hx : (accept s x).2 = 0
    · rw [feed_accepted accept hx]
      exact (ih _).trans (suffix_cons x xs)
    · exact ⟨[], congrArg Prod.snd (feed_refused accept hx xs)⟩

/-- A callback that refuses nothing gets everything. -/
lemma feed_all (haccept : ∀ s x, (accept s x).2 = 0) :
    feed accept s xs = (xs.foldl (fun s x => (accept s x).1) s, []) := by
  induction xs generalizing s with
  | nil => rfl
  | cons x xs ih => rw [feed_accepted accept (haccept s x), ih, foldl_cons]

def rounds : Nat → σ × List ε → σ × List ε
  | 0, left => left
  | n + 1, left => rounds n (feed accept left.1 left.2)

lemma rounds_succ (n : Nat) (left : σ × List ε) :
    rounds accept (n + 1) left =
      feed accept (rounds accept n left).1 (rounds accept n left).2 := by
  induction n generalizing left with
  | zero => rfl
  | succ n ih => exact ih (feed accept left.1 left.2)

/-! ## A callback that remembers what it was offered -/

/-- The state is the list of the items offered so far, on which the answer depends. -/
def recording (refuses : List ε → ε → Int) (offered : List ε) (x : ε) : List ε × Int :=
  (offered ++ [x], refuses offered x)

/-- Something is offered if there is something to offer, and in order. -/
lemma feed_recording (refuses : List ε → ε → Int) (offered xs : List ε) :
    ∃ more, (feed (recording refuses) offered xs).1 = offered ++ more ∧ more <+: xs ∧
      (more = [] → xs = []) := by
  induction xs generalizing offered with
  | nil => exact ⟨[], (append_nil offered).symm, nil_prefix, id⟩
  | cons x xs ih =>
    by_cases hx : (recording refuses offered x).2 = 0
    · obtain ⟨more, hmore, hinitial, -⟩ := ih (offered ++ [x])
      refine ⟨x :: more, ?_, (prefix_cons_inj x).mpr hinitial, fun hnil => by cases hnil⟩
      rw [feed_accepted _ hx]
      exact hmore.trans (append_assoc ..)
    · refine ⟨[x], ?_, (prefix_cons_inj x).mpr nil_prefix, fun hnil => by cases hnil⟩
      rw [feed_refused _ hx]
      rfl

/-! ## Items with positions -/

section Keys

variable {key : ε → Nat} {l : List ε}

/-- In a list with ascending keys, what begins with an item are the items with no smaller
key. -/
lemma filter_eq_of_suffix (hsorted : l.Pairwise (key · < key ·)) (hsuffix : x :: rest <:+ l) :
    (l.filter fun y => key x ≤ key y) = x :: rest := by
  obtain ⟨before, rfl⟩ := hsuffix
  rw [pairwise_append] at hsorted
  obtain ⟨_, hrest, hbefore⟩ := hsorted
  have hdropped : (before.filter fun y => key x ≤ key y) = [] := by
    apply filter_eq_nil_iff.mpr
    intro y hy
    simpa using hbefore y hy x mem_cons_self
  have hkept : ((x :: rest).filter fun y => key x ≤ key y) = x :: rest := by
    apply filter_eq_self.mpr
    intro y hy
    rcases mem_cons.mp hy with rfl | hy
    · simp
    · simpa using Nat.le_of_lt (rel_of_pairwise_cons hrest hy)
  rw [filter_append, hdropped, hkept, nil_append]

end Keys

end Foundation.Feed
