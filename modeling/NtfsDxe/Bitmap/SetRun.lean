import NtfsDxe.Core.AttrData
import NtfsDxe.Foundation.Loop

/-! # Setting a run of bits in a bitmap

`ntfs_bitmap_set_bits_in_run` writes a run of equal bits through a buffer of at
most 8192 bytes. The partial bytes at the two ends are read first. Bit numbers
are `s64` values, while byte positions are kept in an `int`.
-/

namespace NtfsDxe

open Foundation Bits

/-- `while ((bit & 7) && count--)`: the bits of the first partial byte. -/
def firstBits (value : Bool) (bit : Nat) (count : Int) (b : UInt8) : Int × UInt8 :=
  if bit % 8 = 0 then (count, b)
  else if count = 0 then (count - 1, b)
  else firstBits value (bit + 1) (count - 1) (setBit b bit value)
termination_by (8 - bit % 8) % 8
decreasing_by omega

/-- `while (bit && count--)`: the bits of the last partial byte. -/
def lastBits (value : Bool) : Nat → Int → UInt8 → Int × UInt8
  | 0, count, b => (count, b)
  | bit + 1, count, b =>
    if count = 0 then (count - 1, b) else lastBits value bit (count - 1) (setBit b bit value)

/-- The variables of the loop of `ntfs_bitmap_set_bits_in_run`. -/
structure SetRunState where
  na : AttrData
  startBit : Int
  count : Int
  bufsize : Int
  buf : Buffer
  bit : Nat
  firstbyte : Int
  lastbyte : Int

/-- Read the last partial byte if it is in the current window of the bitmap. -/
def SetRunState.readLast (value : Bool) (s : SetRunState) : Except Failure SetRunState :=
  if 0 < s.count ∧ s.bit ≠ 0 then
    let lastbytePos := s32 ((s.count + 7) / 8 + s.firstbyte)
    if lastbytePos = 0 then .error (.errno .eio)
    else if lastbytePos ≤ s.bufsize then
      if lastbytePos < 0 then .error .outOfBounds
      else
        match s.na.pread ((s.startBit + s.count) / 8) 1 with
        | .error e => .error e
        | .ok [] => .error (.errno .eio)
        | .ok (b :: _) =>
          match store s.buf (lastbytePos - 1).toNat (lastBits value s.bit s.count b).2 with
          | .error e => .error e
          | .ok buf =>
            .ok { s with
              buf := buf, count := (lastBits value s.bit s.count b).1, bit := 0, lastbyte := 1 }
    else .ok s
  else .ok s

def SetRunState.writeBuffer (s : SetRunState) : Except Failure AttrData :=
  if s.bufsize < 0 then .error (.errno .einval)
  else if s.buf.length < s.bufsize.toNat then .error .outOfBounds
  else s.na.pwrite (s32 (s.startBit / 8 - s.firstbyte)) (s.buf.take s.bufsize.toNat)

def SetRunState.advance (value : Bool) (s : SetRunState) (na : AttrData) : SetRunState :=
  let tmp := s32 ((s.bufsize - s.firstbyte - s.lastbyte) * 8)
  { s with
    na := na
    buf := if s.firstbyte ≠ 0 then s.buf.set 0 (fill value) else s.buf
    firstbyte := 0
    startBit := s.startBit + tmp
    count := s.count - tmp
    bufsize := min s.bufsize (s32 ((s.count - tmp + 7) / 8)) }

/-- One iteration of the loop, which ends with the bitmap and the result. -/
def setRunStep (value : Bool) (s : SetRunState) :
    SetRunState ⊕ (AttrData × Except Failure Unit) :=
  match s.readLast value with
  | .error e => .inr (s.na, .error e)
  | .ok s =>
    match s.writeBuffer with
    | .error e => .inr (s.na, .error e)
    | .ok na =>
      let s := s.advance value na
      if s.lastbyte ≠ 0 ∧ s.count ≠ 0 then .inr (s.na, .error (.errno .eio))
      else if 0 < s.count then .inl s
      else .inr (s.na, .ok ())

/-- The required buffer size in bytes, capped at 8 KiB. -/
def setRunBufsize (startBit count : Int) : Int :=
  let bit := startBit % 8
  min ((count - (if bit ≠ 0 then 8 - bit else 0) + 7) / 8 + (if bit ≠ 0 then 1 else 0)) 8192

/-- The loop variables before the first iteration. -/
def setRunInitial (na : AttrData) (startBit count : Int) (value : Bool) :
    Except Failure SetRunState :=
  let bufsize := setRunBufsize startBit count
  let buf := List.replicate bufsize.toNat (fill value)
  let bit := (startBit % 8).toNat
  if bit ≠ 0 then
    match na.pread (startBit / 8) 1 with
    | .error e => .error e
    | .ok [] => .error (.errno .eio)
    | .ok (b :: _) =>
      match store buf 0 (firstBits value bit count b).2 with
      | .error e => .error e
      | .ok buf =>
        .ok { na := na, startBit := (startBit + 7) / 8 * 8,
              count := (firstBits value bit count b).1, bufsize := bufsize, buf := buf,
              bit := ((firstBits value bit count b).1 % 8).toNat, firstbyte := 1,
              lastbyte := 0 }
  else
    .ok { na := na, startBit := startBit, count := count, bufsize := bufsize, buf := buf,
          bit := (count % 8).toNat, firstbyte := 0, lastbyte := 0 }

section

variable (fuel : Nat) (hasMemory : Bool) (na : AttrData) (startBit count : Int)

/-- `ntfs_bitmap_set_bits_in_run`: the bitmap and the result. -/
def bitmapSetBitsInRun (value : Bool) : Option (AttrData × Except Failure Unit) :=
  if startBit < 0 ∨ count < 0 then some (na, .error (.errno .einval))
  else if hasMemory then
    match setRunInitial na startBit count value with
    | .error e => some (na, .error e)
    | .ok s => Loop.run (setRunStep value) fuel s
  else some (na, .error (.errno .enomem))

def bitmapClearRun : Option (AttrData × Except Failure Unit) :=
  bitmapSetBitsInRun fuel hasMemory na startBit count false

end

end NtfsDxe
