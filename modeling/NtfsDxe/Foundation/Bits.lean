import Mathlib.Tactic.IntervalCases

/-! # Bits of a byte

Single bits are tested with a mask, and set or cleared one at a time.
-/

namespace Foundation.Bits

open BitVec

def bitMask (i : Nat) : UInt8 := 1 <<< UInt8.ofNat i

def getBit (b : UInt8) (i : Nat) : Bool := b &&& bitMask i != 0

def setBit (b : UInt8) (i : Nat) (value : Bool) : UInt8 :=
  if value then b ||| bitMask i else b &&& ~~~bitMask i

/-- The byte that has all bits equal to `value`. -/
def fill (value : Bool) : UInt8 := if value then 0xff else 0

lemma bitMask_toBitVec (hi : i < 8) : (bitMask i).toBitVec = twoPow 8 i := by
  interval_cases i <;> rfl

lemma getBit_eq_getLsbD (hi : i < 8) : getBit b i = b.toBitVec.getLsbD i := by
  have hne : (bitMask i).toBitVec ≠ 0#8 := by interval_cases i <;> decide
  rw [bitMask_toBitVec hi] at hne
  have hand : (b &&& bitMask i).toBitVec = b.toBitVec &&& twoPow 8 i := by
    rw [UInt8.toBitVec_and, bitMask_toBitVec hi]
  have hzero : b &&& bitMask i = 0 ↔ b.toBitVec &&& twoPow 8 i = 0#8 := by
    rw [← hand, ← UInt8.toBitVec_inj]
    rfl
  rw [and_twoPow] at hzero
  unfold getBit
  cases hbit : b.toBitVec.getLsbD i with
  | true =>
    rw [hbit] at hzero
    exact bne_iff_ne.mpr fun h => hne (hzero.mp h)
  | false =>
    rw [hbit] at hzero
    rw [hzero.mpr rfl]
    rfl

lemma getBit_setBit (hi : i < 8) (hj : j < 8) :
    getBit (setBit b i value) j = if j = i then value else getBit b j := by
  have hmask : (twoPow 8 i).getLsbD j = decide (j = i) := by
    simp [hi, eq_comm]
  rw [getBit_eq_getLsbD hj, getBit_eq_getLsbD hj]
  cases value with
  | true =>
    rw [setBit, if_pos rfl, UInt8.toBitVec_or, getLsbD_or, bitMask_toBitVec hi, hmask]
    by_cases hji : j = i <;> simp [hji]
  | false =>
    rw [setBit, if_neg Bool.false_ne_true, UInt8.toBitVec_and, UInt8.toBitVec_not,
      getLsbD_and, getLsbD_not, bitMask_toBitVec hi]
    by_cases hji : j = i <;> simp [hji, hj]

lemma getBit_fill (value : Bool) (hi : i < 8) : getBit (fill value) i = value := by
  cases value <;> interval_cases i <;> rfl

lemma eq_of_getBit (hbits : ∀ i < 8, getBit a i = getBit b i) : a = b := by
  apply UInt8.toBitVec_inj.mp
  apply eq_of_getLsbD_eq
  intro i hi
  rw [← getBit_eq_getLsbD hi, ← getBit_eq_getLsbD hi]
  exact hbits i hi

end Foundation.Bits
