import NtfsDxe.Compress.Decompressor
import NtfsDxe.Foundation.SlidingWindow

/-! # The byte sequence of a list of tokens

Both sides of the round trip are compared with one byte sequence: the tokens of
a sub-block in groups of at most eight, each group after its tag byte. How the
sixteen bits of a phrase are divided between distance and length depends on the
position in the sub-block.
-/

namespace NtfsDxe

open Foundation SlidingWindow List

/-! ## Phrases -/

/-- The decoder's logarithm is the least width that holds the position. -/
lemma lgOf_spec (n : Nat) : n < 2 ^ (4 + lgOf n) ∧ (lgOf n = 0 ∨ 2 ^ (3 + lgOf n) ≤ n) := by
  fun_induction lgOf n with
  | case1 n hge ih =>
    obtain ⟨hlt, hmin⟩ := ih
    have hpow : 2 ^ (4 + (lgOf (n / 2) + 1)) = 2 * 2 ^ (4 + lgOf (n / 2)) := by ring
    have hpow' : 2 ^ (3 + (lgOf (n / 2) + 1)) = 2 ^ (4 + lgOf (n / 2)) := by ring_nf
    refine ⟨by omega, .inr ?_⟩
    rcases hmin with hzero | hle
    · rw [hzero]
      omega
    · have hdouble : 2 ^ (4 + lgOf (n / 2)) = 2 * 2 ^ (3 + lgOf (n / 2)) := by ring
      omega
  | case2 n hlt => exact ⟨by omega, .inl rfl⟩

variable {n pos distance length : Nat}

/-- The width of the distance is determined by its two bounds. -/
lemma eq_lgOf (hlt : n < 2 ^ (4 + k)) (hmin : k = 0 ∨ 2 ^ (3 + k) ≤ n) : k = lgOf n := by
  obtain ⟨hlt', hmin'⟩ := lgOf_spec n
  rcases lt_trichotomy k (lgOf n) with hless | heq | hmore
  · have hpow : 2 ^ (4 + k) ≤ 2 ^ (3 + lgOf n) := Nat.pow_le_pow_right (by omega) (by omega)
    omega
  · exact heq
  · have hpow : 2 ^ (4 + lgOf n) ≤ 2 ^ (3 + k) := Nat.pow_le_pow_right (by omega) (by omega)
    omega

lemma lgOf_le_eight (hn : n < sbSize) : lgOf n ≤ 8 := by
  obtain ⟨_, hmin⟩ := lgOf_spec n
  by_contra hlarge
  have hpow : 2 ^ 12 ≤ 2 ^ (3 + lgOf n) := Nat.pow_le_pow_right (by omega) (by omega)
  unfold sbSize at hn
  omega

def lengthBits (pos : Nat) : Nat := 12 - lgOf (pos - 1)

def phraseWord (pos distance length : Nat) : Nat :=
  (distance - 1) * 2 ^ lengthBits pos + (length - 3)

def Encodable (pos : Nat) : Token UInt8 → Prop
  | .literal _ => True
  | .copy distance length =>
    1 ≤ distance ∧ distance ≤ pos ∧ 3 ≤ length ∧ length < 2 ^ lengthBits pos + 3

/-- The two fields of a phrase can be read back. -/
lemma phraseWord_fields (henc : Encodable pos (.copy distance length)) :
    phraseWord pos distance length / 2 ^ lengthBits pos + 1 = distance ∧
      phraseWord pos distance length % 2 ^ lengthBits pos + 3 = length := by
  obtain ⟨hdist, _, hlen, hfits⟩ := henc
  have hpos : 0 < 2 ^ lengthBits pos := Nat.two_pow_pos _
  have hsmall : length - 3 < 2 ^ lengthBits pos := by omega
  have hswap : phraseWord pos distance length =
      (length - 3) + (distance - 1) * 2 ^ lengthBits pos := add_comm _ _
  rw [hswap, Nat.add_mul_div_right _ _ hpos, Nat.add_mul_mod_self_right,
    Nat.div_eq_of_lt hsmall, Nat.mod_eq_of_lt hsmall]
  omega

/-- A phrase within a sub-block takes sixteen bits. -/
lemma phraseWord_lt (hpos : pos ≤ sbSize) (henc : Encodable pos (.copy distance length)) :
    phraseWord pos distance length < 65536 := by
  obtain ⟨hdist, hle, hlen, hfits⟩ := henc
  have hlg : lgOf (pos - 1) ≤ 8 := lgOf_le_eight (by omega)
  have hlt := (lgOf_spec (pos - 1)).1
  have hprod : 2 ^ (4 + lgOf (pos - 1)) * 2 ^ lengthBits pos = 65536 := by
    rw [← Nat.pow_add, lengthBits, show 4 + lgOf (pos - 1) + (12 - lgOf (pos - 1)) = 16 by omega]
  have hdiv : (distance - 1) + 1 ≤ 2 ^ (4 + lgOf (pos - 1)) := by omega
  have hmul := Nat.mul_le_mul_right (2 ^ lengthBits pos) hdiv
  rw [add_mul] at hmul
  unfold phraseWord
  omega

/-! ## Groups of tokens -/

def tokenBytes (pos : Nat) : Token UInt8 → List UInt8
  | .literal b => [b]
  | .copy distance length =>
    [UInt8.ofNat (phraseWord pos distance length),
     UInt8.ofNat (phraseWord pos distance length / 256)]

def tokensBytes : Nat → List (Token UInt8) → List UInt8
  | _, [] => []
  | pos, t :: tokens => tokenBytes pos t ++ tokensBytes (pos + t.size) tokens

def tagBit : Token UInt8 → Nat
  | .literal _ => 0
  | .copy _ _ => 1

def groupTag : List (Token UInt8) → Nat
  | [] => 0
  | t :: tokens => tagBit t + 2 * groupTag tokens

def groupsBytes : Nat → List (List (Token UInt8)) → List UInt8
  | _, [] => []
  | pos, g :: groups =>
    UInt8.ofNat (groupTag g) :: tokensBytes pos g ++ groupsBytes (pos + totalSize g) groups

/-- Every group but the last is full, and none is empty. -/
def FullGroups : List (List (Token UInt8)) → Prop
  | [] => True
  | [g] => g ≠ [] ∧ g.length ≤ 8
  | g :: groups => g.length = 8 ∧ FullGroups groups

def EncodableFrom : Nat → List (Token UInt8) → Prop
  | _, [] => True
  | pos, t :: tokens => Encodable pos t ∧ EncodableFrom (pos + t.size) tokens

lemma tagBit_le (t : Token UInt8) : tagBit t ≤ 1 := by
  cases t <;> simp [tagBit]

lemma tokenBytes_length_pos (pos : Nat) (t : Token UInt8) : 0 < (tokenBytes pos t).length := by
  cases t <;> simp [tokenBytes]

lemma groupTag_lt (g : List (Token UInt8)) : groupTag g < 2 ^ g.length := by
  induction g with
  | nil => simp [groupTag]
  | cons t g ih =>
    have hbit := tagBit_le t
    rw [groupTag, length_cons]
    omega

lemma groupTag_append : groupTag (g ++ [t]) = groupTag g + tagBit t * 2 ^ g.length := by
  induction g with
  | nil => simp [groupTag]
  | cons t' g ih =>
    rw [cons_append, groupTag, ih, groupTag, length_cons]
    ring

lemma tokensBytes_append :
    tokensBytes pos (xs ++ ys) = tokensBytes pos xs ++ tokensBytes (pos + totalSize xs) ys := by
  induction xs generalizing pos with
  | nil => rfl
  | cons t xs ih => simp [tokensBytes, ih, add_assoc]

lemma groupsBytes_append :
    groupsBytes pos (xs ++ ys) =
      groupsBytes pos xs ++ groupsBytes (pos + totalSize xs.flatten) ys := by
  induction xs generalizing pos with
  | nil => rfl
  | cons g xs ih => simp [groupsBytes, ih, add_assoc]

lemma encodableFrom_append :
    EncodableFrom pos (xs ++ ys) ↔
      EncodableFrom pos xs ∧ EncodableFrom (pos + totalSize xs) ys := by
  induction xs generalizing pos with
  | nil => simp [EncodableFrom]
  | cons t xs ih =>
    rw [cons_append, EncodableFrom, EncodableFrom, ih, totalSize_cons, and_assoc, add_assoc]

lemma FullGroups.cons_cases (hfull : FullGroups (g :: groups)) :
    g.length ≤ 8 ∧ (g.length = 8 ∨ groups = []) ∧ FullGroups groups := by
  cases groups with
  | nil => exact ⟨hfull.2, .inr rfl, trivial⟩
  | cons g' groups => exact ⟨le_of_eq hfull.1, .inl hfull.1, hfull.2⟩

lemma FullGroups.append_last (hfull : ∀ g ∈ groups, g.length = 8) (hne : g ≠ [])
    (hle : g.length ≤ 8) : FullGroups (groups ++ [g]) := by
  induction groups with
  | nil => exact ⟨hne, hle⟩
  | cons g' groups ih =>
    have hrest := ih (fun g hg => hfull g (mem_cons_of_mem _ hg))
    have hhead := hfull g' mem_cons_self
    cases groups with
    | nil => exact ⟨hhead, hrest⟩
    | cons g'' groups => exact ⟨hhead, hrest⟩

lemma FullGroups.of_full (hfull : ∀ g ∈ groups, g.length = 8) : FullGroups groups := by
  rcases eq_nil_or_concat groups with rfl | ⟨front, g, rfl⟩
  · trivial
  · rw [concat_eq_append] at hfull ⊢
    have hlast := hfull g (by simp)
    refine FullGroups.append_last (fun g hg => hfull g (by simp [hg])) ?_ (by omega)
    rintro rfl
    simp at hlast

end NtfsDxe
