import Mathlib.Data.List.TakeDrop

/-! # Describing a sequence by its own past

A token stands for the next elements of a sequence: either one element itself,
or a number of elements that repeat the sequence from an earlier position on.
The repeated stretch may reach into the elements it describes.
-/

namespace Foundation.SlidingWindow

variable {α : Type*}

/-- A literal element, or `length` elements repeated from `distance` before. -/
inductive Token (α : Type*) where
  | literal (a : α)
  | copy (distance length : Nat)

def Token.size : Token α → Nat
  | .literal _ => 1
  | .copy _ length => length

def totalSize : List (Token α) → Nat
  | [] => 0
  | t :: tokens => t.size + totalSize tokens

@[simp] lemma totalSize_nil : totalSize ([] : List (Token α)) = 0 := rfl

@[simp] lemma totalSize_cons : totalSize (t :: tokens) = t.size + totalSize tokens := rfl

@[simp] lemma totalSize_append : totalSize (xs ++ ys) = totalSize xs + totalSize ys := by
  induction xs with
  | nil => rw [List.nil_append, totalSize_nil, Nat.zero_add]
  | cons t xs ih => rw [List.cons_append, totalSize_cons, totalSize_cons, ih, Nat.add_assoc]

/-- A token describes the elements of `data` from position `i` on. -/
def Token.Describes (data : List α) (i : Nat) : Token α → Prop
  | .literal a => data[i]? = some a
  | .copy distance length =>
    1 ≤ distance ∧ distance ≤ i ∧ i + length ≤ data.length ∧
      ∀ k < length, data[i - distance + k]? = data[i + k]?

/-- Consecutive tokens describe the elements of `data` from position `i` on. -/
def Describes (data : List α) : Nat → List (Token α) → Prop
  | _, [] => True
  | i, t :: tokens => t.Describes data i ∧ Describes data (i + t.size) tokens

lemma describes_append :
    Describes data i (xs ++ ys) ↔ Describes data i xs ∧ Describes data (i + totalSize xs) ys := by
  induction xs generalizing i with
  | nil => simp [Describes]
  | cons t xs ih =>
    rw [List.cons_append, Describes, Describes, ih, totalSize_cons, and_assoc, Nat.add_assoc]

lemma Token.Describes.end_le {t : Token α}
    (ht : t.Describes data i) : i + t.size ≤ data.length := by
  cases t with
  | literal a => exact (List.getElem?_eq_some_iff.mp ht).1
  | copy distance length => exact ht.2.2.1

lemma Describes.end_le {data : List α} (htokens : Describes data 0 tokens) :
    totalSize tokens ≤ data.length := by
  rcases List.eq_nil_or_concat tokens with rfl | ⟨front, t, rfl⟩
  · exact Nat.zero_le _
  · rw [List.concat_eq_append, describes_append] at htokens
    have hlast := htokens.2.1.end_le
    rw [List.concat_eq_append, totalSize_append, totalSize_cons, totalSize_nil]
    omega

/-- A repetition at distance one of a single element is constant. -/
lemma Token.Describes.copy_constant (hfirst : data[0]? = some a)
    (ht : (Token.copy distance length).Describes data 1) : ∀ k ≤ length, data[k]? = some a := by
  obtain ⟨hpos, hle, _, hcopy⟩ := ht
  have hone : distance = 1 := by omega
  subst hone
  intro k hk
  induction k with
  | zero => exact hfirst
  | succ k ih =>
    have hstep := hcopy k (by omega)
    rw [Nat.zero_add, Nat.add_comm 1 k] at hstep
    rw [← hstep]
    exact ih (by omega)

end Foundation.SlidingWindow
