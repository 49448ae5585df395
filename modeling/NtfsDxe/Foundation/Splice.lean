import Mathlib.Data.List.TakeDrop

/-! # Overwriting a stretch of a list

A positioned write replaces a stretch of a fixed-size list and leaves its
length and everything outside the stretch as it was.
-/

namespace Foundation

open List

variable {α : Type*}

/-- Replace the elements from position `i` on by those of `xs`. -/
def splice (buf : List α) (i : Nat) (xs : List α) : List α :=
  buf.take i ++ xs ++ buf.drop (i + xs.length)

@[simp] lemma splice_nil : splice buf i [] = buf := by
  simp [splice]

variable {buf xs ys : List α}

@[simp] lemma splice_length (hfit : i + xs.length ≤ buf.length) :
    (splice buf i xs).length = buf.length := by
  simp only [splice, length_append, length_take, length_drop]
  omega

section

variable (buf xs : List α) (hi : i ≤ buf.length)
include hi

lemma splice_take : (splice buf i xs).take i = buf.take i := by
  have htake : (buf.take i).length = i := by simp [hi]
  rw [splice, append_assoc, take_append_of_le_length (by omega), take_take, Nat.min_self]

lemma splice_take_end : (splice buf i xs).take (i + xs.length) = buf.take i ++ xs := by
  have hlen : (buf.take i ++ xs).length = i + xs.length := by simp [hi]
  rw [splice, ← hlen, take_left]

lemma splice_drop_end : (splice buf i xs).drop (i + xs.length) = buf.drop (i + xs.length) := by
  have hlen : (buf.take i ++ xs).length = i + xs.length := by simp [hi]
  rw [splice, ← hlen, drop_left]

end

lemma set_eq_splice (x : α) (hi : i < buf.length) : buf.set i x = splice buf i [x] := by
  rw [set_eq_take_append_cons_drop, if_pos hi]
  simp [splice]

lemma splice_splice (buf xs ys : List α) (hi : i ≤ buf.length) :
    splice (splice buf i xs) (i + xs.length) ys = splice buf i (xs ++ ys) := by
  have hdrop : (splice buf i xs).drop (i + xs.length + ys.length) =
      buf.drop (i + (xs ++ ys).length) := by
    rw [← drop_drop, splice_drop_end buf xs hi, drop_drop, length_append, Nat.add_assoc]
  rw [splice, splice_take_end buf xs hi, hdrop, splice]
  simp

/-- A splice is extended by setting the element after it. -/
lemma splice_set_next (x : α) (hfit : i + xs.length < buf.length) :
    (splice buf i xs).set (i + xs.length) x = splice buf i (xs ++ [x]) := by
  have hlen := splice_length (Nat.le_of_lt hfit)
  rw [set_eq_splice x (by omega), splice_splice buf xs [x] (by omega)]

/-- Splicing around an element already in place: the first element may be
written after the others. -/
lemma splice_set_front (hfit : i + 1 + xs.length ≤ buf.length) :
    (splice buf (i + 1) xs).set i x = splice buf i (x :: xs) := by
  have hlen := splice_length hfit
  have htake : (splice buf (i + 1) xs).take i = buf.take i := by
    have hshort := congrArg (take i) (splice_take buf xs (by omega : i + 1 ≤ buf.length))
    rwa [take_take, take_take, Nat.min_eq_left (by omega)] at hshort
  have hdrop : (splice buf (i + 1) xs).drop (i + 1) = xs ++ buf.drop (i + 1 + xs.length) := by
    rw [splice, append_assoc, drop_left']
    simp
    omega
  rw [set_eq_take_append_cons_drop, if_pos (by omega), htake, hdrop]
  simp [splice, Nat.add_assoc, Nat.add_comm 1]

lemma splice_getElem? (hfit : i + xs.length ≤ buf.length) :
    (splice buf i xs)[j]? = if i ≤ j ∧ j < i + xs.length then xs[j - i]? else buf[j]? := by
  have hlen : (buf.take i).length = i := by simp; omega
  have hlen' : (buf.take i ++ xs).length = i + xs.length := by simp; omega
  unfold splice
  split
  next hin =>
    rw [getElem?_append_left (by omega), getElem?_append_right (by omega), hlen]
  next hout =>
    rcases Nat.lt_or_ge j i with hlt | hge
    · rw [getElem?_append_left (by omega), getElem?_append_left (by omega), getElem?_take_of_lt hlt]
    · rw [getElem?_append_right (by omega), getElem?_drop]
      congr 1
      omega

/-- A stretch that is overwritten twice. -/
lemma splice_splice_self (hfit : i + xs.length ≤ buf.length) (hlength : ys.length = xs.length) :
    splice (splice buf i xs) i ys = splice buf i ys := by
  have hlen := splice_length hfit
  apply ext_getElem?
  intro j
  rw [splice_getElem? (by omega), splice_getElem? hfit, splice_getElem? (by omega)]
  split_ifs with h h'
  · rfl
  · omega
  · rfl

/-- Two stretches that do not overlap are overwritten in any order. -/
lemma splice_comm (hx : i + xs.length ≤ buf.length) (hy : j + ys.length ≤ buf.length)
    (happart : i + xs.length ≤ j ∨ j + ys.length ≤ i) :
    splice (splice buf i xs) j ys = splice (splice buf j ys) i xs := by
  have hlen := splice_length hx
  have hlen' := splice_length hy
  apply ext_getElem?
  intro k
  rw [splice_getElem? (by omega), splice_getElem? hx, splice_getElem? (by omega),
    splice_getElem? hy]
  split_ifs <;> first | rfl | omega

/-- Writing back what a stretch holds changes nothing. -/
lemma splice_self : splice buf i ((buf.drop i).take n) = buf := by
  have hdrop : buf.drop (i + ((buf.drop i).take n).length) = (buf.drop i).drop n := by
    rw [drop_drop, length_take, length_drop]
    rcases Nat.le_total n (buf.length - i) with hle | hle
    · rw [Nat.min_eq_left hle]
    · rw [drop_of_length_le (by omega), drop_of_length_le (by omega)]
  rw [splice, hdrop, append_assoc, take_append_drop, take_append_drop]

/-- A stretch written directly before another one. -/
lemma splice_splice_before (hij : i + ys.length = j) (hj : j ≤ buf.length) :
    splice (splice buf j xs) i ys = buf.take i ++ ys ++ xs ++ buf.drop (j + xs.length) := by
  have hlen : (buf.take j).length = j := by simp [hj]
  have htake : (splice buf j xs).take i = buf.take i := by
    rw [splice, append_assoc, take_append_of_le_length (by omega), take_take,
      Nat.min_eq_left (by omega)]
  have hdrop : (splice buf j xs).drop j = xs ++ buf.drop (j + xs.length) := by
    rw [splice, append_assoc, drop_left' hlen]
  rw [splice, htake, hij, hdrop]
  simp only [append_assoc]

/-- Overwriting a stretch of the first part of a list. -/
lemma splice_append_left (hfit : i + bs.length ≤ xs.length) :
    splice (xs ++ ys) i bs = splice xs i bs ++ ys := by
  rw [splice, splice, take_append_of_le_length (by omega),
    drop_append_of_le_length hfit, append_assoc, append_assoc, append_assoc]

/-- Overwriting a stretch of the second part of a list. -/
lemma splice_append_right (xs ys : List α) (i : Nat) (bs : List α) :
    splice (xs ++ ys) (xs.length + i) bs = xs ++ splice ys i bs := by
  rw [splice, splice, take_length_add_append, Nat.add_assoc, ← drop_drop, drop_left,
    append_assoc, append_assoc, append_assoc]

/-- Changing an element after a known front. -/
@[simp] lemma modify_append_right (i : Nat) :
    (xs ++ ys).modify (xs.length + i) f = xs ++ ys.modify i f := by
  induction xs with
  | nil => simp
  | cons x xs ih =>
    rw [length_cons, Nat.add_right_comm, cons_append, modify_succ_cons, ih, cons_append]

@[simp] lemma modify_append_length : (xs ++ ys).modify xs.length f = xs ++ ys.modify 0 f :=
  modify_append_right 0

end Foundation
