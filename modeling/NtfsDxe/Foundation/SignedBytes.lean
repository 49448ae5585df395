import Mathlib.Data.List.Basic
import Mathlib.Tactic.Ring
import Mathlib.Tactic.Linarith

/-! # Minimal signed little-endian integers

An integer is stored in the fewest bytes that identify it as a signed number,
least significant byte first. Decoding sign-extends the last byte, so the
encoding determines the integer without a separate length or sign.
-/

namespace Foundation.SignedBytes

/-- Truncation of an integer to a two's-complement register of `w` bits. -/
def wrap (w : Nat) (x : Int) : Int := x.bmod (2 ^ w)

/-- The integers a signed register of `w + 1` bits holds. -/
def Fits (w : Nat) (x : Int) : Prop := -2 ^ w ≤ x ∧ x < 2 ^ w

instance (w : Nat) (x : Int) : Decidable (Fits w x) := inferInstanceAs (Decidable (_ ∧ _))

lemma wrap_of_fits (hfits : Fits w x) : wrap (w + 1) x = x := by
  obtain ⟨hlo, hhi⟩ := hfits
  apply Int.bmod_eq_of_le_mul_two
  · push_cast
    rw [pow_succ]
    linarith
  · push_cast
    rw [pow_succ]
    linarith

variable (w : Nat) (x : Int)

lemma wrap_wrap_mul_add : wrap w (wrap w x * c + y) = wrap w (x * c + y) := by
  unfold wrap
  rw [← Int.bmod_add_bmod, Int.bmod_mul_bmod, Int.bmod_add_bmod]

lemma wrap_add_wrap : wrap w (x + wrap w y) = wrap w (x + y) := by
  simp [wrap]

lemma wrap_fits : Fits w (wrap (w + 1) x) := by
  have hpos : 0 < 2 ^ (w + 1) := by positivity
  have hlo := Int.le_bmod (x := x) hpos
  have hhi := Int.bmod_lt (x := x) hpos
  have hhalf : ((2 ^ (w + 1) : Nat) : Int) = 2 * 2 ^ w := by push_cast; ring
  constructor
  · unfold wrap
    omega
  · unfold wrap
    omega

lemma Fits.mono {v w : Nat} {x : Int} (hle : v ≤ w) (hfits : Fits v x) : Fits w x := by
  have hpow : (2 : Int) ^ v ≤ 2 ^ w := pow_le_pow_right₀ (by norm_num) hle
  obtain ⟨hlo, hhi⟩ := hfits
  exact ⟨by linarith, by linarith⟩

def lowByte (x : Int) : UInt8 := UInt8.ofInt x

def signedByte (b : UInt8) : Int := if b.toNat < 128 then b.toNat else (b.toNat : Int) - 256

lemma lowByte_toNat : ((lowByte x).toNat : Int) = x % 256 := by
  unfold lowByte UInt8.ofInt
  norm_num
  omega

lemma signedByte_lowByte {x : Int} (hfits : Fits 7 x) : signedByte (lowByte x) = x := by
  have hbyte := lowByte_toNat x
  obtain ⟨hlo, hhi⟩ := hfits
  unfold signedByte
  split <;> omega

lemma signedByte_fits : Fits 7 (signedByte b) := by
  have hb := b.toNat_lt
  unfold signedByte Fits
  split <;> omega

lemma shiftRight_eight : x >>> (8 : Nat) = x / 256 := Int.shiftRight_eq_div_pow x 8

/-- The bytes of the shortest signed representation, least significant first. -/
def encode (x : Int) : List UInt8 :=
  if 0x7f < x ∨ x < -0x80 then lowByte x :: encode (x >>> (8 : Nat)) else [lowByte x]
termination_by x.natAbs
decreasing_by
  rw [shiftRight_eight]
  omega

/-- Sign-extend the last byte and shift the earlier ones in below it. -/
def decode : List UInt8 → Int
  | [] => 0
  | [b] => signedByte b
  | b :: c :: rest => 256 * decode (c :: rest) + b.toNat

lemma encode_ne_nil : encode x ≠ [] := by
  rw [encode]
  split <;> simp

lemma encode_length_pos : 0 < (encode x).length :=
  List.length_pos_of_ne_nil (encode_ne_nil x)

lemma decode_cons (hrest : rest ≠ []) : decode (b :: rest) = 256 * decode rest + b.toNat := by
  cases rest with
  | nil => exact absurd rfl hrest
  | cons c rest => rfl

/-- Decoding recovers every integer from its shortest representation. -/
lemma decode_encode : decode (encode x) = x := by
  fun_induction encode x with
  | case1 x _ ih =>
    rw [decode_cons (encode_ne_nil _), ih, shiftRight_eight, lowByte_toNat]
    omega
  | case2 x hsmall =>
    apply signedByte_lowByte
    constructor <;> omega

/-- A number that fits in `k` bytes is encoded in at most `k` bytes. -/
lemma encode_length_le {x : Int} (hfits : Fits (8 * k + 7) x) : (encode x).length ≤ k + 1 := by
  induction k generalizing x with
  | zero =>
    obtain ⟨hlo, hhi⟩ := hfits
    rw [encode, if_neg (by omega)]
    simp
  | succ k ih =>
    have hshift : Fits (8 * k + 7) (x >>> (8 : Nat)) := by
      have hpow : (2 : Int) ^ (8 * (k + 1) + 7) = 256 * 2 ^ (8 * k + 7) := by ring
      obtain ⟨hlo, hhi⟩ := hfits
      rw [shiftRight_eight]
      constructor <;> omega
    rw [encode]
    split
    · simpa using ih hshift
    · simp

end Foundation.SignedBytes
