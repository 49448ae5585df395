import NtfsDxe.Core.AttrData
import NtfsDxe.Foundation.LittleEndian

/-! # Counting the free bits of a bitmap

`ntfs_attr_get_free_bits` reads a bitmap in chunks. It looks up how many bits of a byte are
clear in a table, word by word from the end of the chunk, and then for the bytes behind the
last word.
-/

namespace NtfsDxe

open Foundation LittleEndian List

/-- The macro `BCX`. -/
def bcx (x : Nat) : Nat :=
  x - ((x >>> 1) &&& 0x77777777) - ((x >>> 2) &&& 0x33333333) - ((x >>> 3) &&& 0x11111111)

/-- The macro `BITCOUNT`. -/
def bitcount (x : Nat) : Nat := ((bcx x + (bcx x >>> 4)) &&& 0x0F0F0F0F) % 255

/-- The entry for a byte in the table of `ntfs_init_lut256`. -/
def lut256 (b : UInt8) : Nat := 8 - bitcount b.toNat

section

variable (buf : Buffer)

/-- The loop over the words, from the one before word `p` down to the first. -/
def countWords : Nat → Nat → Nat
  | 0, nrFree => nrFree
  | p + 1, nrFree => countWords p (nrFree + ((bytes 4 (read buf (4 * p) 4)).map lut256).sum)

def countTail (nrFree : Nat) : Nat :=
  let lutBack (k : Nat) := lut256 (buf.getD (buf.length - k) 0)
  match buf.length % 4 with
  | 3 => nrFree + lutBack 3 + lutBack 2 + lutBack 1
  | 2 => nrFree + lutBack 2 + lutBack 1
  | 1 => nrFree + lutBack 1
  | _ => nrFree

end

/-- The loop over the chunks. A read at `total` returns at most `count total` bytes, or fails
if that is negative. -/
def freeBitsLoop (data : Buffer) (count : Nat → Int) (total nrFree : Nat) : Int :=
  let br := min (count total) (min 65536 (data.length - total : Nat))
  if 0 < br then
    let buf := (data.drop total).take br.toNat
    freeBitsLoop data count (total + br.toNat)
      (countTail buf (countWords buf (buf.length / 4) nrFree))
  else if total = 0 ∨ br < 0 then -1 else nrFree
  termination_by data.length - total
  decreasing_by omega

def attrGetFreeBits (hasMemory : Bool) (data : Buffer) (count : Nat → Int) : Int :=
  if hasMemory then freeBitsLoop data count 0 0 else -1

/-- The number of clear bits. -/
def clearBits (data : Buffer) : Nat :=
  (data.map fun b => (range 8).countP fun i => !Bits.getBit b i).sum

lemma map_lut256_sum (bs : Buffer) : (bs.map lut256).sum = clearBits bs := by
  have hlut : ∀ i < 256, lut256 (UInt8.ofNat i) =
      (range 8).countP fun j => !Bits.getBit (UInt8.ofNat i) j := by decide +kernel
  congr 1
  refine map_congr_left fun b _ => ?_
  have hb := hlut b.toNat b.toNat_lt
  rwa [UInt8.ofNat_toNat] at hb

lemma clearBits_append : clearBits (bs ++ cs) = clearBits bs + clearBits cs := by
  rw [clearBits, map_append, sum_append]
  rfl

lemma countWords_eq (hp : 4 * p ≤ buf.length) :
    countWords buf p nrFree = nrFree + clearBits (buf.take (4 * p)) := by
  induction p generalizing nrFree with
  | zero => rfl
  | succ p ih =>
    have hword : bytes 4 (read buf (4 * p) 4) = (buf.drop (4 * p)).take 4 := by
      have hlength : ((buf.drop (4 * p)).take 4).length = 4 := by
        rw [length_take, length_drop]
        omega
      have hbytes := bytes_value ((buf.drop (4 * p)).take 4)
      rwa [hlength] at hbytes
    rw [countWords, ih (by omega), hword, map_lut256_sum, Nat.mul_succ, take_add, clearBits_append]
    omega

lemma countTail_eq (nrFree : Nat) (hws : ws.length = 4 * p) (hrest : rest.length < 4) :
    countTail (ws ++ rest) nrFree = nrFree + clearBits rest := by
  rw [← map_lut256_sum]
  rcases rest with _ | ⟨a, _ | ⟨b, _ | ⟨c, _ | ⟨d, rest⟩⟩⟩⟩
  · simp [countTail, hws]
  · simp [countTail, hws]
  · simp [countTail, hws, add_assoc]
  · simp [countTail, hws, add_assoc]
  · simp only [length_cons] at hrest
    omega

/-- The words and the bytes behind them are the bytes of the chunk. -/
lemma countChunk_eq (buf : Buffer) (nrFree : Nat) :
    countTail buf (countWords buf (buf.length / 4) nrFree) = nrFree + clearBits buf := by
  have hws : (buf.take (4 * (buf.length / 4))).length = 4 * (buf.length / 4) := by
    rw [length_take]
    omega
  have hrest : (buf.drop (4 * (buf.length / 4))).length < 4 := by
    rw [length_drop]
    omega
  have htail := countTail_eq (nrFree + clearBits (buf.take (4 * (buf.length / 4)))) hws hrest
  rwa [add_assoc, ← clearBits_append, take_append_drop, ← countWords_eq (by omega)] at htail

section

variable {data : Buffer} {count : Nat → Int} (hne : data ≠ []) (hreads : ∀ pos, 0 < count pos)
include hne hreads

lemma freeBitsLoop_eq (htotal : total ≤ data.length) :
    freeBitsLoop data count total nrFree = nrFree + clearBits (data.drop total) := by
  have hpos := length_pos_iff.mpr hne
  fun_induction freeBitsLoop data count total nrFree with
  | case1 total nrFree br hbr buf ih =>
    rw [ih (by omega), countChunk_eq, ← drop_drop, ← Nat.cast_add, Nat.add_assoc,
      ← clearBits_append, take_append_drop, Nat.cast_add]
  | case2 total nrFree br hbr hfails =>
    have := hreads total
    omega
  | case3 total nrFree br hbr hends =>
    have := hreads total
    rw [drop_eq_nil_of_le (by omega)]
    rfl

/-- The free bits of a bitmap that is not empty are counted, whatever its length and however
many bytes each read returns. -/
theorem attrGetFreeBits_eq : attrGetFreeBits true data count = clearBits data := by
  rw [attrGetFreeBits, if_pos rfl, freeBitsLoop_eq hne hreads (Nat.zero_le _)]
  simp

end

/-- Seven bytes, in chunks of four. -/
theorem attrGetFreeBits_seven :
    attrGetFreeBits true [0xff, 0, 1, 0x80, 0x0f, 0xff, 3] (fun _ => 4) = 32 :=
  attrGetFreeBits_eq (by decide) fun _ => by decide

/-- An empty bitmap has no clear bit, but the first read of it counts as an error. -/
theorem attrGetFreeBits_empty :
    clearBits [] = 0 ∧ ∀ count : Nat → Int, attrGetFreeBits true [] count = -1 := by
  refine ⟨rfl, fun count => ?_⟩
  rw [attrGetFreeBits, if_pos rfl, freeBitsLoop, if_neg (by simp), if_pos (.inl rfl)]

end NtfsDxe
