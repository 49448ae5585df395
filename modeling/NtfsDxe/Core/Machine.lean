import NtfsDxe.Foundation.SignedBytes

/-! # Machine values and failures of the driver

The driver computes with `s64` cluster numbers and `int` sizes, reports errors
through `errno`, and addresses memory through raw pointers. Cluster numbers are
integers truncated to 64 bits after each addition. A load or store outside the
memory an operation was given is a failure of its own, distinct from every
error code.
-/

namespace NtfsDxe

open Foundation List SignedBytes

/-- The error codes set by the modelled functions. -/
inductive Errno where
  | einval
  | eio
  | enospc
  | enomem
  | enoent
  | eexist
  | erange
  | eoverflow
  | eopnotsupp
  | eacces
  | eperm
  deriving DecidableEq

/-- How a modelled function ends without a value. -/
inductive Failure where
  | errno (code : Errno)
  | outOfBounds
  deriving DecidableEq

/-- Truncation to the driver's signed 64-bit integers. -/
def s64 (x : Int) : Int := wrap 64 x

/-- The values of the driver's signed 64-bit integers. -/
def IsS64 (x : Int) : Prop := SignedBytes.Fits 63 x

variable {α : Type}

lemma s64_of_isS64 (hx : IsS64 x) : s64 x = x := wrap_of_fits hx

lemma isS64_iff : IsS64 x ↔ -9223372036854775808 ≤ x ∧ x < 9223372036854775808 := by
  unfold IsS64 SignedBytes.Fits
  norm_num

lemma s64_isS64 (x : Int) : IsS64 (s64 x) := wrap_fits 63 x

/-- Undoing a truncated subtraction recovers the minuend. -/
lemma s64_add_s64_sub (hx : IsS64 x) : s64 (y + s64 (x - y)) = x := by
  have hsum : y + (x - y) = x := by ring
  rw [s64, s64, wrap_add_wrap, hsum]
  exact s64_of_isS64 hx

/-- The largest value of an `int`. -/
def intMax : Int := 2147483647

/-- Truncation to the driver's signed 32-bit `int`. -/
def s32 (x : Int) : Int := wrap 32 x

/-- The values of the driver's signed 32-bit integers. -/
def IsS32 (x : Int) : Prop := SignedBytes.Fits 31 x

lemma s32_of_isS32 (hx : IsS32 x) : s32 x = x := wrap_of_fits hx

lemma isS32_iff : IsS32 x ↔ -2147483648 ≤ x ∧ x < 2147483648 := by
  unfold IsS32 SignedBytes.Fits
  norm_num

lemma s32_isS32 (x : Int) : IsS32 (s32 x) := wrap_fits 31 x

lemma s32_le (hx : 0 ≤ x) : s32 x ≤ x := by
  change x.bmod 4294967296 ≤ x
  rw [Int.bmod_def]
  split <;> omega

lemma s32_of_le_intMax (hx : 0 ≤ x) (hmax : x ≤ intMax) : s32 x = x := by
  unfold intMax at hmax
  exact s32_of_isS32 (isS32_iff.mpr (by omega))

/-- Above the largest `int` truncation continues from the smallest one. -/
lemma s32_of_overflow (hlo : intMax < x) (hhi : x ≤ 2 * intMax) : s32 x = x - 4294967296 := by
  have hfits : IsS32 (x - 4294967296) := by
    rw [isS32_iff]
    unfold intMax at hlo hhi
    omega
  rw [← s32_of_isS32 hfits]
  exact (Int.sub_bmod_right x (2 ^ 32)).symm

abbrev Buffer := List UInt8

/-- Store one byte; a store outside the buffer is an access violation. -/
def store (buf : Buffer) (i : Nat) (b : UInt8) : Except Failure Buffer :=
  if i < buf.length then .ok (buf.set i b) else .error .outOfBounds

/-- Load one byte; a load outside the buffer is an access violation. -/
def load (buf : Buffer) (i : Nat) : Except Failure UInt8 :=
  match buf[i]? with
  | some b => .ok b
  | none => .error .outOfBounds

lemma store_ok (b : UInt8) (hi : i < buf.length) : store buf i b = .ok (buf.set i b) := by
  rw [store, if_pos hi]

lemma load_ok (hb : buf[i]? = some b) : load buf i = .ok b := by
  rw [load, hb]

lemma load_inside (hi : i < buf.length) : load buf i = .ok (buf.getD i 0) :=
  load_ok (by rw [getD_eq_getElem?_getD, getElem?_eq_getElem hi, Option.getD_some])

lemma getD_set_self {xs : List α} (b : α) (hj : j < xs.length) : (xs.set j b).getD j d = b := by
  simp [hj]

lemma getD_set_ne {xs : List α} (b : α) (hij : i ≠ j) : (xs.set i b).getD j d = xs.getD j d := by
  simp [getElem?_set_ne hij]

/-- The bytes of `mem` from `pos` on start with `bytes`. -/
def HoldsAt (mem : Buffer) (pos : Nat) (bytes : List UInt8) : Prop :=
  ∀ i (hi : i < bytes.length), mem[pos + i]? = some bytes[i]

lemma HoldsAt.left (hmem : HoldsAt mem pos (xs ++ ys)) : HoldsAt mem pos xs := by
  intro i hi
  rw [hmem i (by simp; omega), getElem_append_left hi]

lemma HoldsAt.right (hmem : HoldsAt mem pos (xs ++ ys)) : HoldsAt mem (pos + xs.length) ys := by
  intro i hi
  have hbyte := hmem (xs.length + i) (by simp; omega)
  simpa [add_assoc] using hbyte

lemma HoldsAt.head (hmem : HoldsAt mem pos (b :: bytes)) : mem[pos]? = some b :=
  hmem 0 (by simp)

lemma HoldsAt.tail (hmem : HoldsAt mem pos (b :: bytes)) : HoldsAt mem (pos + 1) bytes := by
  rw [← singleton_append] at hmem
  exact hmem.right

lemma HoldsAt.end_le (hmem : HoldsAt mem pos bytes) (hne : bytes ≠ []) :
    pos + bytes.length ≤ mem.length := by
  have hlen := List.length_pos_iff.mpr hne
  have hlast := hmem (bytes.length - 1) (by omega)
  have hlt := (List.getElem?_eq_some_iff.mp hlast).1
  omega

/-- The bytes that a stretch of memory holds are the stretch itself. -/
lemma HoldsAt.drop_take (hmem : HoldsAt mem pos bytes) :
    (mem.drop pos).take bytes.length = bytes := by
  apply ext_getElem?
  intro i
  by_cases hi : i < bytes.length
  · rw [getElem?_take_of_lt hi, getElem?_drop, hmem i hi, getElem?_eq_getElem hi]
  · rw [getElem?_eq_none (by simp; omega), getElem?_eq_none (by omega)]

end NtfsDxe
