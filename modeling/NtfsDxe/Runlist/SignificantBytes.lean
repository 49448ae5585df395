import Mathlib.Data.List.Induction
import NtfsDxe.Foundation.Splice
import NtfsDxe.Runlist.MappingPairs

/-! # Signed fields of a mapping pair

The size computation, the bounded writer and the reader of a field agree on the
shortest signed representation. The writer either stores the whole field or
stops at the end of the buffer without touching anything before the field.
-/

namespace NtfsDxe

open Foundation List SignedBytes

/-! ## Widths -/

lemma shiftPasses_succ (hl : l / 256 ≠ 0) : shiftPasses l = 1 + shiftPasses (l / 256) := by
  rw [shiftPasses, if_neg hl]

/-- The size computation counts exactly the bytes of the shortest encoding. -/
lemma getNrSignificantBytes_eq : getNrSignificantBytes n = (encode n).length := by
  fun_induction encode n with
  | case1 n hlarge ih =>
    rw [length_cons, ← ih, shiftRight_eight]
    unfold getNrSignificantBytes
    set l := if n < 0 then (-n - 1).toNat else n.toNat with hl
    -- Shifting by a byte divides the magnitude that both counts inspect.
    have hshift : (if n / 256 < 0 then (-(n / 256) - 1).toNat else (n / 256).toNat) = l / 256 := by
      rw [hl]
      split <;> split <;> omega
    have hbig : 128 ≤ l := by
      rw [hl]
      split <;> omega
    rw [hshift]
    rw [if_pos hbig]
    by_cases hmore : 128 ≤ l / 256
    · have hcomm : l / 128 / 256 = l / 256 / 128 := by omega
      rw [if_pos hmore, shiftPasses_succ (by omega), hcomm]
      omega
    · rw [if_neg hmore, shiftPasses, if_pos (by omega)]
  | case2 n hsmall =>
    unfold getNrSignificantBytes
    rw [if_neg (by split <;> omega)]
    rfl

lemma encode_length_le_eight (hn : IsS64 n) : (encode n).length ≤ 8 :=
  encode_length_le (k := 7) hn

/-! ## Writing -/

section

variable (buf : Buffer) (dst : Nat) (dstMax n : Int) (hmax : dstMax < buf.length)
include hmax

/-- A field that fits is stored whole. -/
lemma writeSignificantBytes_fits (hfit : dst + (encode n).length ≤ dstMax + 1) :
    writeSignificantBytes buf dst dstMax n =
      .ok (splice buf dst (encode n), some (encode n).length) := by
  induction hk : n.natAbs using Nat.strongRecOn generalizing buf dst n with
  | ind k ih =>
    have hpos := encode_length_pos n
    have hdst : dst < buf.length := by omega
    rw [writeSignificantBytes, if_neg (by omega), store_ok _ hdst, set_eq_splice _ hdst]
    dsimp only
    by_cases hlarge : 0x7f < n ∨ n < -0x80
    · have henc : encode n =
          lowByte n :: encode (n >>> (8 : Nat)) := by
        rw [encode, if_pos hlarge]
      rw [henc, length_cons] at hfit
      have hlen : (splice buf dst [lowByte n]).length = buf.length :=
        splice_length (by simp only [length_singleton]; omega)
      have hrest := ih (n >>> (8 : Nat)).natAbs (by rw [shiftRight_eight]; omega)
        (splice buf dst [lowByte n]) (dst + 1) (n >>> (8 : Nat)) (by omega)
          (by omega) rfl
      rw [if_pos hlarge, hrest, henc]
      have hjoin := splice_splice buf [lowByte n] (encode (n >>> (8 : Nat)))
        (by omega : dst ≤ buf.length)
      simp only [length_singleton] at hjoin
      simp [hjoin]
    · have henc : encode n = [lowByte n] := by
        rw [encode, if_neg hlarge]
      rw [if_neg hlarge, henc]
      rfl

/-- A field that does not fit leaves the bytes before it alone. -/
lemma writeSignificantBytes_full (hfull : dstMax + 1 < dst + (encode n).length) :
    ∃ buf', writeSignificantBytes buf dst dstMax n = .ok (buf', none) ∧
      buf'.length = buf.length ∧ buf'.take dst = buf.take dst := by
  induction hk : n.natAbs using Nat.strongRecOn generalizing buf dst n with
  | ind k ih =>
    rw [writeSignificantBytes]
    by_cases hend : dstMax < dst
    · exact ⟨buf, if_pos hend, rfl, rfl⟩
    · have hdst : dst < buf.length := by omega
      have hlarge : 0x7f < n ∨ n < -0x80 := by
        by_contra hsmall
        rw [encode, if_neg hsmall] at hfull
        simp only [length_singleton] at hfull
        omega
      rw [encode, if_pos hlarge, length_cons] at hfull
      rw [if_neg hend, store_ok _ hdst]
      dsimp only
      obtain ⟨buf', hwrite, hlen, htake⟩ := ih (n >>> (8 : Nat)).natAbs
        (by rw [shiftRight_eight]; omega)
        (buf.set dst (lowByte n)) (dst + 1) (n >>> (8 : Nat)) (by simpa using hmax)
        (by omega) rfl
      refine ⟨buf', ?_, by simpa using hlen, ?_⟩
      · rw [if_pos hlarge, hwrite]
        rfl
      · have hfront := congrArg (List.take dst) htake
        rw [take_take, take_take, min_eq_left (by omega)] at hfront
        rw [hfront, take_set_of_le (by omega)]

end

/-! ## Reading -/

/-- Shifting the bytes in from the last to the first computes the value of the
field below the part already read. -/
lemma readDeltaLoop_decode (bytes rest : List UInt8)
    (hrest : rest ≠ []) (hmem : HoldsAt mem (pos + 1) bytes) :
    readDeltaLoop mem pos bytes.length (s64 (decode rest)) =
      .ok (s64 (decode (bytes ++ rest))) := by
  induction bytes using List.reverseRecOn generalizing rest with
  | nil => rfl
  | append_singleton bytes b ih =>
    have hb : mem[pos + (bytes.length + 1)]? = some b := by
      have hlast := hmem.right.head
      rwa [show pos + 1 + bytes.length = pos + (bytes.length + 1) by omega] at hlast
    have hshift : s64 (s64 (decode rest) * 256 + b.toNat) =
        s64 (decode (b :: rest)) := by
      rw [decode_cons hrest, s64, s64, wrap_wrap_mul_add, mul_comm,
        ← s64]
    have hnext := ih (b :: rest) (by simp) hmem.left
    rw [length_append, length_singleton, readDeltaLoop, load_ok hb]
    change readDeltaLoop mem pos bytes.length _ = _
    rw [hshift, hnext]
    simp

/-- The reader computes the value of a stored field, truncated to 64 bits. -/
lemma readDelta_decode (hne : bytes ≠ []) (hmem : HoldsAt mem (pos + 1) bytes) :
    readDelta mem pos (bytes.length - 1) = .ok (s64 (decode bytes)) := by
  obtain ⟨front, last, rfl⟩ := eq_nil_or_concat bytes |>.resolve_left hne
  simp only [concat_eq_append] at hmem hne ⊢
  have hlast : mem[pos + (front.length + 1)]? = some last := by
    have hhead := hmem.right.head
    rwa [show pos + 1 + front.length = pos + (front.length + 1) by omega] at hhead
  have hsmall : signedByte last = s64 (decode [last]) :=
    (wrap_of_fits (signedByte_fits.mono (by norm_num))).symm
  rw [readDelta, length_append, length_singleton, Nat.add_sub_cancel, load_ok hlast]
  change readDeltaLoop mem pos front.length _ = _
  rw [hsmall]
  exact readDeltaLoop_decode front [last] (by simp) hmem.left

/-- Reading a field written by the encoder recovers a 64-bit number. -/
lemma readDelta_encode (hn : IsS64 n) (hmem : HoldsAt mem (pos + 1) (encode n)) :
    readDelta mem pos ((encode n).length - 1) = .ok n := by
  rw [readDelta_decode (encode_ne_nil n) hmem, decode_encode,
    s64_of_isS64 hn]

end NtfsDxe
