import NtfsDxe.Foundation.Splice
import Mathlib.Tactic.Ring

/-! # Little-endian fields of a byte buffer

A field of a record is a stretch of bytes that stands for a number, the least
significant byte first. Fields are read and overwritten in place.
-/

namespace Foundation.LittleEndian

open List

def value : List UInt8 → Nat
  | [] => 0
  | b :: bs => b.toNat + 256 * value bs

/-- The lowest `n` bytes of a number. -/
def bytes : Nat → Nat → List UInt8
  | 0, _ => []
  | n + 1, v => UInt8.ofNat v :: bytes n (v / 256)

@[simp] lemma bytes_length (n : Nat) : (bytes n v).length = n := by
  induction n generalizing v with
  | zero => rfl
  | succ n ih => rw [bytes, length_cons, ih]

lemma value_bytes : value (bytes n v) = v % 256 ^ n := by
  induction n generalizing v with
  | zero => rw [bytes, value, pow_zero, Nat.mod_one]
  | succ n ih =>
    have hbyte : (UInt8.ofNat v).toNat = v % 256 := by simp
    rw [bytes, value, ih, hbyte, pow_succ', Nat.mod_mul]

lemma value_lt : value bs < 256 ^ bs.length := by
  induction bs with
  | nil => exact Nat.one_pos
  | cons b bs ih =>
    have hb : b.toNat < 256 := b.toNat_lt
    rw [value, length_cons]
    omega

lemma bytes_value (bs : List UInt8) : bytes bs.length (value bs) = bs := by
  induction bs with
  | nil => rfl
  | cons b bs ih =>
    have hb : b.toNat < 256 := b.toNat_lt
    have hbyte : UInt8.ofNat (b.toNat + 256 * value bs) = b := by
      apply UInt8.toNat_inj.mp
      rw [UInt8.toNat_ofNat', Nat.add_mul_mod_self_left, Nat.mod_eq_of_lt hb]
    have hrest : (b.toNat + 256 * value bs) / 256 = value bs := by omega
    rw [value, length_cons, bytes, hbyte, hrest, ih]

/-- The field of `n` bytes at `off`. -/
def read (buf : List UInt8) (off n : Nat) : Nat := value ((buf.drop off).take n)

/-- Overwrite the field of `n` bytes at `off`. -/
def write (buf : List UInt8) (off n v : Nat) : List UInt8 := splice buf off (bytes n v)

lemma read_lt (n : Nat) : read buf off n < 256 ^ n := by
  refine lt_of_lt_of_le value_lt (Nat.pow_le_pow_right (by decide) ?_)
  rw [length_take]
  exact min_le_left _ _

variable {buf xs zs : List UInt8}

@[simp] lemma write_length (v : Nat) (hfit : off + n ≤ buf.length) :
    (write buf off n v).length = buf.length := by
  rw [write, splice_length (by rwa [bytes_length])]

/-! ## Reading after writing -/

lemma drop_take_splice_self (hi : i ≤ buf.length) :
    ((splice buf i xs).drop i).take xs.length = xs := by
  have hlen : (buf.take i).length = i := by simp [hi]
  rw [splice, append_assoc, drop_left' hlen, take_left]

lemma read_splice_self (hi : i ≤ buf.length) : read (splice buf i xs) i xs.length = value xs := by
  rw [read, drop_take_splice_self hi]

lemma read_write_self (v : Nat) (hoff : off ≤ buf.length) :
    read (write buf off n v) off n = v % 256 ^ n := by
  have hread := @read_splice_self buf (bytes n v) off hoff
  rw [bytes_length, value_bytes] at hread
  exact hread

/-- Writing back what a field holds changes nothing. -/
lemma write_read_self (hfit : off + n ≤ buf.length) : write buf off n (read buf off n) = buf := by
  have hlen : ((buf.drop off).take n).length = n := by
    rw [length_take, length_drop]
    omega
  have hbytes := bytes_value ((buf.drop off).take n)
  rw [hlen] at hbytes
  rw [write, read, hbytes, splice_self]

section

variable (hfit : i + xs.length ≤ buf.length) (hdisjoint : off + n ≤ i ∨ i + xs.length ≤ off)
include hfit hdisjoint

/-- A stretch beside the one that is overwritten keeps its bytes. -/
lemma drop_take_splice_of_disjoint :
    ((splice buf i xs).drop off).take n = (buf.drop off).take n := by
  apply ext_getElem?
  intro j
  by_cases hj : j < n
  · rw [getElem?_take_of_lt hj, getElem?_take_of_lt hj, getElem?_drop,
      getElem?_drop, splice_getElem? hfit, if_neg (by omega)]
  · rw [getElem?_eq_none (by simp; omega), getElem?_eq_none (by simp; omega)]

lemma read_splice_of_disjoint : read (splice buf i xs) off n = read buf off n := by
  rw [read, drop_take_splice_of_disjoint hfit hdisjoint, read]

end

lemma read_write_of_disjoint (v : Nat) (hfit : off' + n' ≤ buf.length)
    (hdisjoint : off + n ≤ off' ∨ off' + n' ≤ off) :
    read (write buf off' n' v) off n = read buf off n :=
  read_splice_of_disjoint (by rwa [bytes_length]) (by rwa [bytes_length])

lemma write_write_self (hfit : off + n ≤ buf.length) :
    write (write buf off n v) off n w = write buf off n w :=
  splice_splice_self (by rwa [bytes_length]) (by rw [bytes_length, bytes_length])

lemma write_comm (hfit : off + n ≤ buf.length) (hfit' : off' + n' ≤ buf.length)
    (happart : off + n ≤ off' ∨ off' + n' ≤ off) :
    write (write buf off n v) off' n' w = write (write buf off' n' w) off n v :=
  splice_comm (by rwa [bytes_length]) (by rwa [bytes_length]) (by rwa [bytes_length, bytes_length])

lemma write_getElem? (hfit : off + n ≤ buf.length) (hk : k < off ∨ off + n ≤ k) :
    (write buf off n v)[k]? = buf[k]? := by
  rw [write, splice_getElem? (by rwa [bytes_length]), bytes_length, if_neg (by omega)]

/-- A field depends on its bytes only. -/
lemma read_congr (h : ∀ k, off ≤ k → k < off + n → xs[k]? = ys[k]?) :
    read xs off n = read ys off n := by
  have hbytes : (xs.drop off).take n = (ys.drop off).take n := by
    apply ext_getElem?
    intro j
    by_cases hj : j < n
    · rw [getElem?_take_of_lt hj, getElem?_take_of_lt hj, getElem?_drop,
        getElem?_drop, h (off + j) (by omega) (by omega)]
    · rw [getElem?_eq_none (by simp; omega), getElem?_eq_none (by simp; omega)]
  rw [read, hbytes, read]

/-! ## Fields of a part of a buffer -/

lemma read_append_left (ys : List UInt8) (hfit : off + n ≤ xs.length) :
    read (xs ++ ys) off n = read xs off n := by
  rw [read, drop_append_of_le_length (by omega),
    take_append_of_le_length (by rw [length_drop]; omega), read]

lemma read_append_right : read (xs ++ ys) (xs.length + off) n = read ys off n := by
  rw [read, ← drop_drop, drop_left, read]

lemma write_append_left (ys : List UInt8) (v : Nat) (hfit : off + n ≤ xs.length) :
    write (xs ++ ys) off n v = write xs off n v ++ ys :=
  splice_append_left (by rwa [bytes_length])

/-- A field of a part with two parts before it. -/
lemma read_third (xs ys ws : List UInt8) (hfit : off + n ≤ zs.length) :
    read (xs ++ (ys ++ (zs ++ ws))) (xs.length + ys.length + off) n = read zs off n := by
  rw [add_assoc, read_append_right, read_append_right, read_append_left _ hfit]

/-- Overwriting a stretch of a part with two parts before it. -/
lemma splice_third (xs ys ws : List UInt8) (hfit : off + bs.length ≤ zs.length) :
    splice (xs ++ (ys ++ (zs ++ ws))) (xs.length + ys.length + off) bs =
      xs ++ (ys ++ (splice zs off bs ++ ws)) := by
  rw [add_assoc, splice_append_right, splice_append_right, splice_append_left hfit]

lemma write_third (xs ys ws : List UInt8) (v : Nat) (hfit : off + n ≤ zs.length) :
    write (xs ++ (ys ++ (zs ++ ws))) (xs.length + ys.length + off) n v =
      xs ++ (ys ++ (write zs off n v ++ ws)) :=
  splice_third xs ys ws (by rwa [bytes_length])

/-! ## Several fields -/

/-- A field to write: its offset, its size and its value. -/
structure Field where
  off : Nat
  size : Nat
  val : Nat

namespace Field

def Apart (f g : Field) : Prop := f.off + f.size ≤ g.off ∨ g.off + g.size ≤ f.off

instance (f g : Field) : Decidable (f.Apart g) := by
  unfold Apart
  infer_instance

end Field

/-- Write the fields of a structure at `base`, one after the other. -/
def writeFields (buf : List UInt8) (base : Nat) (fields : List Field) : List UInt8 :=
  fields.foldl (fun buf f => write buf (base + f.off) f.size f.val) buf

lemma writeFields_third (xs ys : List UInt8) (hfit : ∀ f ∈ fields, f.off + f.size ≤ zs.length) :
    writeFields (xs ++ (ys ++ (zs ++ ws))) (xs.length + ys.length) fields =
      xs ++ (ys ++ (writeFields zs 0 fields ++ ws)) := by
  induction fields generalizing zs with
  | nil => rfl
  | cons f fields ih =>
    have hf := hfit f mem_cons_self
    have hlength := write_length f.val hf
    have hrest := @ih (write zs f.off f.size f.val) (fun g hg => by
      rw [hlength]
      exact hfit g (mem_cons_of_mem f hg))
    rw [writeFields, foldl_cons, write_third _ _ _ _ hf]
    rw [writeFields] at hrest
    rw [hrest, writeFields, writeFields, foldl_cons, zero_add]

lemma writeFields_length (hfit : ∀ f ∈ fields, f.off + f.size ≤ buf.length) :
    (writeFields buf 0 fields).length = buf.length := by
  induction fields generalizing buf with
  | nil => rfl
  | cons f fields ih =>
    have hlength := write_length f.val (hfit f mem_cons_self)
    rw [writeFields, foldl_cons, zero_add]
    rw [← hlength]
    exact ih fun g hg => by rw [hlength]; exact hfit g (mem_cons_of_mem f hg)

lemma read_writeFields_of_apart (hfit : ∀ f ∈ fields, f.off + f.size ≤ buf.length)
    (happart : ∀ f ∈ fields, off + n ≤ f.off ∨ f.off + f.size ≤ off) :
    read (writeFields buf 0 fields) off n = read buf off n := by
  induction fields generalizing buf with
  | nil => rfl
  | cons f fields ih =>
    have hf := hfit f mem_cons_self
    have hlength := write_length f.val hf
    have hrest := @ih (write buf f.off f.size f.val)
      (fun g hg => by rw [hlength]; exact hfit g (mem_cons_of_mem f hg))
      (fun g hg => happart g (mem_cons_of_mem f hg))
    rw [writeFields, foldl_cons, zero_add]
    rw [writeFields] at hrest
    rw [hrest, read_write_of_disjoint _ hf (happart f mem_cons_self)]

lemma read_writeFields_of_mem (hfit : ∀ f ∈ fields, f.off + f.size ≤ buf.length)
    (happart : fields.Pairwise Field.Apart)
    (hf : f ∈ fields) : read (writeFields buf 0 fields) f.off f.size = f.val % 256 ^ f.size := by
  induction fields generalizing buf with
  | nil => cases hf
  | cons g fields ih =>
    rw [pairwise_cons] at happart
    have hg := hfit g mem_cons_self
    have hlength := write_length g.val hg
    have hfit' : ∀ f ∈ fields, f.off + f.size ≤ (write buf g.off g.size g.val).length := by
      intro f hf
      rw [hlength]
      exact hfit f (mem_cons_of_mem g hf)
    rw [writeFields, foldl_cons, zero_add]
    rcases mem_cons.mp hf with rfl | hrest
    · have hkept := read_writeFields_of_apart hfit' (happart.1)
      rw [writeFields] at hkept
      rw [hkept, read_write_self _ (by omega)]
    · exact ih hfit' happart.2 hrest

end Foundation.LittleEndian
