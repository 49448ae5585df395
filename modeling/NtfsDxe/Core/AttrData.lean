import NtfsDxe.Core.Machine
import NtfsDxe.Foundation.Bits

/-! # The data of an attribute

Reading and writing an attribute's data when every access to the device
succeeds. Positions are `s64` values, and a negative one is refused.
-/

namespace NtfsDxe

open Foundation

structure AttrData where
  size : Nat
  byte : Nat → UInt8

section

variable (na : AttrData)

/-- `ntfs_attr_pread`: the bytes from `pos` on, as far as the data reaches. -/
def AttrData.pread (pos count : Int) : Except Failure Buffer :=
  if pos < 0 ∨ count < 0 then .error (.errno .einval)
  else .ok ((List.range (min count.toNat (na.size - pos.toNat))).map
    fun k => na.byte (pos.toNat + k))

/-- `ntfs_attr_pwrite`: the bytes are stored from `pos` on. -/
def AttrData.pwrite (pos : Int) (bytes : Buffer) : Except Failure AttrData :=
  if pos < 0 then .error (.errno .einval)
  else if bytes = [] then .ok na
  else .ok
    { size := max na.size (pos.toNat + bytes.length)
      byte := fun k =>
        if pos.toNat ≤ k ∧ k < pos.toNat + bytes.length then bytes.getD (k - pos.toNat) 0
        else na.byte k }

/-- Bit `k` of the data. -/
def AttrData.bit (k : Nat) : Bool := Bits.getBit (na.byte (k / 8)) (k % 8)

lemma AttrData.bit_byte (hi : i < 8) : na.bit (8 * j + i) = Bits.getBit (na.byte j) i := by
  have hdiv : (8 * j + i) / 8 = j := by omega
  have hmod : (8 * j + i) % 8 = i := by omega
  rw [AttrData.bit, hdiv, hmod]

lemma AttrData.eq_of_bit {a b : AttrData} (hsize : a.size = b.size)
    (hbits : ∀ k, a.bit k = b.bit k) : a = b := by
  have hbyte : a.byte = b.byte := by
    funext j
    apply Bits.eq_of_getBit
    intro i hi
    rw [← a.bit_byte hi, ← b.bit_byte hi, hbits]
  cases b
  cases hsize
  cases hbyte
  rfl

lemma AttrData.pread_ok (hpos : 0 ≤ pos) (hcount : 0 ≤ count) :
    na.pread pos count = .ok ((List.range (min count.toNat (na.size - pos.toNat))).map
      fun k => na.byte (pos.toNat + k)) :=
  if_neg (by omega)

lemma AttrData.pread_one (hpos : 0 ≤ pos) (hsize : pos.toNat < na.size) :
    na.pread pos 1 = .ok [na.byte pos.toNat] := by
  have hmin : min (1 : Int).toNat (na.size - pos.toNat) = 1 := by omega
  rw [na.pread_ok hpos (by decide), hmin]
  rfl

lemma AttrData.pwrite_ok (hpos : 0 ≤ pos) (hfit : pos.toNat + bytes.length ≤ na.size) :
    ∃ na', na.pwrite pos bytes = .ok na' ∧ na'.size = na.size ∧
      ∀ k, na'.byte k = if pos.toNat ≤ k ∧ k < pos.toNat + bytes.length
        then bytes.getD (k - pos.toNat) 0 else na.byte k := by
  unfold AttrData.pwrite
  rw [if_neg (not_lt.mpr hpos)]
  by_cases hempty : bytes = []
  · refine ⟨na, if_pos hempty, rfl, fun k => ?_⟩
    rw [if_neg]
    rintro ⟨hle, hlt⟩
    rw [hempty] at hlt
    exact absurd hlt (not_lt.mpr hle)
  · exact ⟨_, if_neg hempty, max_eq_left hfit, fun k => rfl⟩

end

end NtfsDxe
