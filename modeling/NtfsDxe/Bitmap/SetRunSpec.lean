import NtfsDxe.Bitmap.SetRun

/-! # Correctness of setting a run of bits

The run is written in windows of 8192 bytes, and the byte position of each window is an
`int`. The run is set as asked for exactly if these positions fit.
-/

namespace NtfsDxe

open Foundation Bits List

/-- The bits after a run from `start` to `stop` was set to `value`. -/
def runTarget (na : AttrData) (start stop : Nat) (value : Bool) (k : Nat) : Bool :=
  if start ≤ k ∧ k < stop then value else na.bit k

/-- The windows from byte `pos` up to bit `stop`: the last one starts at a position that is an
`int`, and so is `lastbyte_pos` if the run ends inside a byte. -/
def WindowsFit (stop : Nat) (pos : Int) : Prop :=
  pos + ((stop + 7) / 8 - pos - 1) / 8192 * 8192 < 2 ^ 31 ∧
    (stop % 8 = 0 ∨ (stop + 7) / 8 - pos < 2 ^ 31)

/-- The positions of the run fit into an `int`. For an empty run nothing is written, but the
position is checked. -/
def SetRunFits (start count : Nat) : Prop :=
  if start % 8 + count = 0 then 0 ≤ s32 (start / 8) else WindowsFit (start + count) (start / 8)

lemma setRunFits_of_le {start count : Nat} (h : start + count ≤ 2 ^ 34 - 8) :
    SetRunFits start count := by
  unfold SetRunFits
  split_ifs
  · rw [s32_of_isS32 (isS32_iff.mpr (by omega))]
    omega
  · exact ⟨by omega, by omega⟩

variable {start stop k bit : Nat} {count : Int}

lemma runTarget_inside (hlo : start ≤ k) (hhi : k < stop) :
    runTarget na start stop value k = value :=
  if_pos ⟨hlo, hhi⟩

lemma runTarget_outside (hout : k < start ∨ stop ≤ k) :
    runTarget na start stop value k = na.bit k :=
  if_neg (by omega)

/-! ## The partial bytes -/

lemma firstBits_spec (value : Bool) (b : UInt8) (hpos : 0 < bit) (hbit : bit ≤ 8)
    (hcount : 0 ≤ count) :
    (firstBits value bit count b).1 = (if bit + count < 8 then -1 else count - (8 - bit)) ∧
      ∀ j < 8, getBit (firstBits value bit count b).2 j =
        if bit ≤ j ∧ (j : Int) < bit + count then value else getBit b j := by
  induction hn : 8 - bit generalizing bit count b with
  | zero =>
    obtain rfl : bit = 8 := by omega
    rw [firstBits, if_pos (by decide)]
    refine ⟨by rw [if_neg (by omega)]; simp, fun j hj => (if_neg (by omega)).symm⟩
  | succ n ih =>
    rw [firstBits, if_neg (by omega)]
    by_cases hzero : count = 0
    · rw [if_pos hzero]
      refine ⟨by rw [if_pos (by omega), hzero]; rfl, fun j hj => (if_neg (by omega)).symm⟩
    · rw [if_neg hzero]
      obtain ⟨hfst, hsnd⟩ := ih (setBit b bit value) (Nat.succ_pos bit) (by omega)
        (by omega : 0 ≤ count - 1) (by omega)
      refine ⟨?_, fun j hj => ?_⟩
      · rw [hfst]
        split <;> omega
      · rw [hsnd j hj, getBit_setBit (by omega) hj]
        split <;> split <;> [rfl; omega; skip; skip]
        all_goals split <;> first | rfl | omega

lemma lastBits_spec (value : Bool) (b : UInt8) (hbit : bit ≤ 8) (hcount : bit ≤ count) :
    (lastBits value bit count b).1 = count - bit ∧
      ∀ j < 8, getBit (lastBits value bit count b).2 j = if j < bit then value else getBit b j := by
  induction bit generalizing count b with
  | zero => exact ⟨(sub_zero count).symm, fun j _ => (if_neg (Nat.not_lt_zero j)).symm⟩
  | succ bit ih =>
    rw [lastBits, if_neg (by omega)]
    obtain ⟨hfst, hsnd⟩ := ih (setBit b bit value) (by omega) (by omega : bit ≤ count - 1)
    refine ⟨by omega, fun j hj => ?_⟩
    rw [hsnd j hj, getBit_setBit (by omega) hj]
    split <;> split <;> first | rfl | skip
    · omega
    · split <;> first | rfl | omega
    · rw [if_neg (by omega)]

/-! ## The loop -/

section

/-- What holds throughout an iteration: the bitmap is final below the position of
the next write, and untouched from there on. -/
structure WrittenBelow (na : AttrData) (start stop : Nat) (value : Bool) (s : SetRunState) :
    Prop where
  size_eq : s.na.size = na.size
  aligned : s.startBit % 8 = 0
  firstbyte_eq : s.firstbyte = 0 ∨ s.firstbyte = 1
  firstbyte_le : 8 * s.firstbyte ≤ s.startBit
  start_le : start ≤ s.startBit
  written : ∀ k : Nat, s.na.bit k =
    if (k : Int) < s.startBit - 8 * s.firstbyte then runTarget na start stop value k else na.bit k

/-- The invariant of the loop: what is still to be written. -/
structure SettingRun (na : AttrData) (start stop : Nat) (value : Bool) (s : SetRunState) : Prop
    extends WrittenBelow na start stop value s where
  lastbyte_eq : s.lastbyte = 0
  head : s.firstbyte = 1 → ∀ i < 8, getBit (s.buf.getD 0 0) i =
    runTarget na start stop value (8 * (s.startBit / 8 - s.firstbyte).toNat + i)
  rest : ∀ j : Nat, s.firstbyte ≤ j → j < s.buf.length → s.buf.getD j 0 = fill value
  bufsize_le : s.bufsize ≤ s.buf.length
  bufsize_nonneg : 0 ≤ s.bufsize
  remaining : (0 ≤ s.count ∧ s.count = stop - s.startBit ∧
      s.bufsize = min ((s.count + 7) / 8 + s.firstbyte) 8192 ∧ (s.bit : Int) = s.count % 8) ∨
    (s.count = -1 ∧ (stop : Int) ≤ s.startBit ∧ s.startBit < stop + 8 ∧ s.firstbyte = 1 ∧
      s.bufsize = 1)

/-- The state once the last byte has been read: the buffer holds the final bytes. -/
structure PreparedRun (na : AttrData) (start stop : Nat) (value : Bool) (s : SetRunState) : Prop
    extends WrittenBelow na start stop value s where
  bytes : ∀ j : Nat, (j : Int) < s.bufsize → ∀ i < 8, getBit (s.buf.getD j 0) i =
    runTarget na start stop value (8 * ((s.startBit / 8 - s.firstbyte).toNat + j) + i)
  bufsize_le : s.bufsize ≤ s.buf.length
  bufsize_nonneg : 0 ≤ s.bufsize
  bufsize_cap : s.bufsize ≤ 8192
  fits : 8 * (s.startBit / 8 - s.firstbyte + s.bufsize) < stop + 8
  remaining : ((stop : Int) ≤ 8 * (s.startBit / 8 - s.firstbyte + s.bufsize) ∧
      s.count - 8 * (s.bufsize - s.firstbyte - s.lastbyte) ≤ 0 ∧
      (s.lastbyte = 0 ∨ s.lastbyte = 1 ∧ s.count = 8 * (s.bufsize - s.firstbyte - 1))) ∨
    (s.lastbyte = 0 ∧ s.count = stop - s.startBit ∧ s.bufsize = 8192 ∧
      8 * (8192 - s.firstbyte) < s.count ∧ (s.bit : Int) = s.count % 8 ∧
      ∀ j : Nat, s.firstbyte ≤ j → j < s.buf.length → s.buf.getD j 0 = fill value)

variable {j : Nat}

section

variable (hs : SettingRun na start stop value s)
include hs

/-- The bytes of a buffer that was not patched: the first partial byte and full ones. -/
lemma SettingRun.bytes (hj : (j : Int) < s.bufsize)
    (hfull : s.firstbyte ≤ j → 8 * (s.startBit / 8 - s.firstbyte + j) + 8 ≤ stop) :
    ∀ i < 8, getBit (s.buf.getD j 0) i =
      runTarget na start stop value (8 * ((s.startBit / 8 - s.firstbyte).toNat + j) + i) := by
  intro i hi
  have haligned := hs.aligned
  have hstart := hs.start_le
  have hsize := hs.bufsize_le
  have hle := hs.firstbyte_le
  by_cases hfirst : s.firstbyte ≤ j
  · rw [hs.rest j hfirst (by omega), getBit_fill value hi, runTarget_inside (by omega) (by omega)]
  · rcases hs.firstbyte_eq with hzero | hone
    · omega
    · obtain rfl : j = 0 := by omega
      exact hs.head hone i hi

/-- A run that leaves no partial last byte to this window is prepared as it is. -/
lemma SettingRun.prepared
    (hwhole : s.count ≤ 0 ∨ s.bit = 0 ∨ 8192 < (s.count + 7) / 8 + s.firstbyte) :
    PreparedRun na start stop value s := by
  have haligned := hs.aligned
  have hpos := hs.bufsize_nonneg
  have hlast := hs.lastbyte_eq
  refine { hs.toWrittenBelow with
    bytes := fun j hj => hs.bytes hj fun hfirst => ?_, bufsize_le := hs.bufsize_le,
    bufsize_nonneg := hpos, bufsize_cap := ?_, fits := ?_, remaining := ?_ }
  · rcases hs.remaining with ⟨_, _, _, _⟩ | ⟨_, _, _, _, _⟩ <;> omega
  · rcases hs.remaining with ⟨_, _, _, _⟩ | ⟨_, _, _, _, _⟩ <;> omega
  · rcases hs.remaining with ⟨_, _, _, _⟩ | ⟨_, _, _, _, _⟩ <;> omega
  · rcases hs.remaining with ⟨hcount, hstop, hsize, hbit⟩ | ⟨hcount, hstop, _, hfirst, hsize⟩
    · by_cases hmore : 8192 < (s.count + 7) / 8 + s.firstbyte
      · exact .inr ⟨hlast, hstop, by omega, by omega, hbit, hs.rest⟩
      · exact .inl ⟨by omega, by omega, .inl hlast⟩
    · exact .inl ⟨by omega, by omega, .inl hlast⟩

/-- The buffer with the last partial byte patched. -/
lemma SettingRun.patched (hcount : 0 < s.count) (hbit : s.bit ≠ 0)
    (hwindow : (s.count + 7) / 8 + s.firstbyte ≤ s.bufsize)
    (hb : ∀ i < 8, getBit b i = if i < s.bit then value else na.bit (8 * (stop / 8) + i)) :
    PreparedRun na start stop value
      { s with buf := s.buf.set ((s.count + 7) / 8 + s.firstbyte - 1).toNat b,
               count := s.count - s.bit, bit := 0, lastbyte := 1 } := by
  have haligned := hs.aligned
  have hle := hs.firstbyte_le
  have hstart := hs.start_le
  have hbuf := hs.bufsize_le
  obtain ⟨_, hend, hsize, hbits⟩ | ⟨hneg, _⟩ := hs.remaining
  case inr => omega
  set last := ((s.count + 7) / 8 + s.firstbyte - 1).toNat
  refine { hs.toWrittenBelow with
    bytes := ?_, bufsize_le := by rw [length_set]; exact hbuf, bufsize_nonneg := hs.bufsize_nonneg,
    bufsize_cap := by dsimp only; omega, fits := by dsimp only; omega,
    remaining := .inl ⟨by dsimp only; omega, by dsimp only; omega,
      .inr ⟨rfl, by dsimp only; omega⟩⟩ }
  intro j hj i hi
  dsimp only at hj ⊢
  by_cases hjlast : j = last
  · have hpos : (s.startBit / 8 - s.firstbyte).toNat + j = stop / 8 := by omega
    rw [hpos, hjlast, getD_set_self b (by omega), hb i hi]
    by_cases hin : i < s.bit
    · rw [if_pos hin, runTarget_inside (by omega) (by omega)]
    · rw [if_neg hin, runTarget_outside (by omega)]
  · rw [getD_set_ne b (Ne.symm hjlast)]
    exact hs.bytes hj (fun _ => by omega) i hi

/-- The last partial byte is read and patched if it is in the window. -/
lemma SettingRun.readLast (hstop : stop ≤ 8 * na.size)
    (hlast : stop % 8 = 0 ∨ (stop + 7) / 8 - (s.startBit / 8 - s.firstbyte) < 2 ^ 31) :
    ∃ s', s.readLast value = .ok s' ∧ PreparedRun na start stop value s' ∧
      s'.count ≤ s.count ∧ s'.startBit = s.startBit ∧ s'.firstbyte = s.firstbyte := by
  have haligned := hs.aligned
  have hle := hs.firstbyte_le
  have hfb := hs.firstbyte_eq
  unfold SetRunState.readLast
  by_cases hpartly : 0 < s.count ∧ s.bit ≠ 0
  · obtain ⟨hcount, hend, hsize, hbit⟩ | ⟨hcount, _⟩ := hs.remaining
    case inr => omega
    have hlastPos : s32 ((s.count + 7) / 8 + s.firstbyte) = (s.count + 7) / 8 + s.firstbyte :=
      s32_of_isS32 (isS32_iff.mpr (by omega))
    rw [if_pos hpartly, hlastPos]
    rw [if_neg (by omega)]
    by_cases hwindow : (s.count + 7) / 8 + s.firstbyte ≤ s.bufsize
    · have hbuf := hs.bufsize_le
      have hlen : ((s.count + 7) / 8 + s.firstbyte - 1).toNat < s.buf.length := by omega
      have hbyte : ((s.startBit + s.count) / 8).toNat = stop / 8 := by omega
      rw [if_pos hwindow, if_neg (by omega), s.na.pread_one (by omega)
        (by rw [hs.size_eq]; omega)]
      dsimp only
      rw [store_ok _ hlen]
      obtain ⟨hcount', hbits⟩ := lastBits_spec value
        (s.na.byte ((s.startBit + s.count) / 8).toNat) (by omega : s.bit ≤ 8)
        (by omega : (s.bit : Int) ≤ s.count)
      rw [hcount']
      refine ⟨_, rfl, hs.patched hpartly.1 hpartly.2 hwindow fun i hi => ?_,
        by dsimp only; omega, rfl, rfl⟩
      have hold : s.na.bit (8 * (stop / 8) + i) = na.bit (8 * (stop / 8) + i) := by
        rw [hs.written, if_neg (by omega)]
      rw [hbits i hi, hbyte, ← s.na.bit_byte hi, hold]
    · rw [if_neg hwindow]
      exact ⟨s, rfl, hs.prepared (by omega), le_rfl, rfl, rfl⟩
  · rw [if_neg hpartly]
    exact ⟨s, rfl, hs.prepared (by omega), le_rfl, rfl, rfl⟩

/-- A `lastbyte_pos` above the largest `int` is negative, and points before the buffer. -/
lemma SettingRun.readLast_before (hbound : stop ≤ 8 * (2 ^ 31 + 8191)) (hpartly : stop % 8 ≠ 0)
    (hlast : 2 ^ 31 ≤ (stop + 7) / 8 - (s.startBit / 8 - s.firstbyte)) :
    s.readLast value = .error .outOfBounds := by
  have haligned := hs.aligned
  have hle := hs.firstbyte_le
  have hpos := hs.bufsize_nonneg
  obtain ⟨_, hend, _, hbit⟩ | ⟨_, _, _, _, _⟩ := hs.remaining
  · have hlastPos : s32 ((s.count + 7) / 8 + s.firstbyte) =
        (s.count + 7) / 8 + s.firstbyte - 4294967296 :=
      s32_of_overflow (by unfold intMax; omega) (by unfold intMax; omega)
    unfold SetRunState.readLast
    rw [if_pos (by omega), hlastPos]
    dsimp only
    rw [if_neg (by omega), if_pos (by omega), if_pos (by omega)]
  · omega

end

section

variable (hs : PreparedRun na start stop value s)
include hs

/-- The write makes the bitmap final up to its end. -/
lemma PreparedRun.writeBuffer (hstop : stop ≤ 8 * na.size)
    (hposition : s.startBit / 8 - s.firstbyte < 2 ^ 31) :
    ∃ na', s.writeBuffer = .ok na' ∧ na'.size = na.size ∧ ∀ k : Nat, na'.bit k =
      if (k : Int) < 8 * (s.startBit / 8 - s.firstbyte + s.bufsize)
        then runTarget na start stop value k else na.bit k := by
  have haligned := hs.aligned
  have hle := hs.firstbyte_le
  have hbuf := hs.bufsize_le
  have hpos := hs.bufsize_nonneg
  have hfits := hs.fits
  have hs32 : s32 (s.startBit / 8 - s.firstbyte) = s.startBit / 8 - s.firstbyte :=
    s32_of_isS32 (isS32_iff.mpr (by omega))
  have hlen : (s.buf.take s.bufsize.toNat).length = s.bufsize.toNat := by
    rw [length_take]
    omega
  obtain ⟨na', hwrite, hsize, hbyte⟩ := s.na.pwrite_ok
    (by omega : 0 ≤ s.startBit / 8 - s.firstbyte)
    (by rw [hs.size_eq]; omega :
      (s.startBit / 8 - s.firstbyte).toNat + (s.buf.take s.bufsize.toNat).length ≤ s.na.size)
  unfold SetRunState.writeBuffer
  rw [if_neg (by omega), if_neg (by omega), hs32]
  refine ⟨na', hwrite, hsize.trans hs.size_eq, fun k => ?_⟩
  rw [AttrData.bit, hbyte, hlen]
  by_cases hin : (s.startBit / 8 - s.firstbyte).toNat ≤ k / 8 ∧
      k / 8 < (s.startBit / 8 - s.firstbyte).toNat + s.bufsize.toNat
  · have hj : k / 8 - (s.startBit / 8 - s.firstbyte).toNat < s.bufsize.toNat := by omega
    have hk : 8 * ((s.startBit / 8 - s.firstbyte).toNat +
        (k / 8 - (s.startBit / 8 - s.firstbyte).toNat)) + k % 8 = k := by omega
    have htake : (s.buf.take s.bufsize.toNat).getD
        (k / 8 - (s.startBit / 8 - s.firstbyte).toNat) 0 =
        s.buf.getD (k / 8 - (s.startBit / 8 - s.firstbyte).toNat) 0 := by
      simp [getElem?_take_of_lt hj]
    rw [if_pos hin, if_pos (by omega), htake, hs.bytes _ (by omega) _ (by omega), hk]
  · rw [if_neg hin, ← AttrData.bit, hs.written]
    by_cases hbelow : (k : Int) < s.startBit - 8 * s.firstbyte
    · rw [if_pos hbelow, if_pos (by omega)]
    · rw [if_neg hbelow, if_neg (by omega)]

/-- A position above the largest `int` is negative, and the write is refused. -/
lemma PreparedRun.writeBuffer_refused (hbound : stop ≤ 8 * (2 ^ 31 + 8191))
    (hinside : s.startBit / 8 - s.firstbyte < (stop + 7) / 8)
    (hposition : 2 ^ 31 ≤ s.startBit / 8 - s.firstbyte) :
    s.writeBuffer = .error (.errno .einval) := by
  have hbuf := hs.bufsize_le
  have hpos := hs.bufsize_nonneg
  have hs32 : s32 (s.startBit / 8 - s.firstbyte) = s.startBit / 8 - s.firstbyte - 4294967296 :=
    s32_of_overflow (by unfold intMax; omega) (by unfold intMax; omega)
  unfold SetRunState.writeBuffer
  rw [if_neg (by omega), if_neg (by omega), hs32, AttrData.pwrite, if_pos (by omega)]

/-- After a write that reaches the end of the run nothing is left. -/
lemma PreparedRun.advance_last (na' : AttrData)
    (hcount : s.count - 8 * (s.bufsize - s.firstbyte - s.lastbyte) ≤ 0)
    (hlast : s.lastbyte = 0 ∨ s.lastbyte = 1 ∧ s.count = 8 * (s.bufsize - s.firstbyte - 1)) :
    ((s.advance value na').lastbyte = 0 ∨ (s.advance value na').count = 0) ∧
      (s.advance value na').count ≤ 0 := by
  have hfb := hs.firstbyte_eq
  have hcap := hs.bufsize_cap
  have hpos := hs.bufsize_nonneg
  have htmp : s32 ((s.bufsize - s.firstbyte - s.lastbyte) * 8) =
      (s.bufsize - s.firstbyte - s.lastbyte) * 8 :=
    s32_of_isS32 (isS32_iff.mpr (by omega))
  unfold SetRunState.advance
  dsimp only
  exact ⟨by omega, by omega⟩

/-- After a write of the whole buffer the loop goes on behind it. -/
lemma PreparedRun.advance_more (hbound : stop ≤ 8 * (2 ^ 31 + 8191)) (hsize : na'.size = na.size)
    (hbits : ∀ k : Nat, na'.bit k =
      if (k : Int) < 8 * (s.startBit / 8 - s.firstbyte + s.bufsize) then
        runTarget na start stop value k else na.bit k)
    (hlast : s.lastbyte = 0) (hend : s.count = stop - s.startBit) (hbuf : s.bufsize = 8192)
    (hmore : 8 * (8192 - s.firstbyte) < s.count) (hbit : (s.bit : Int) = s.count % 8)
    (hrest : ∀ j : Nat, s.firstbyte ≤ j → j < s.buf.length → s.buf.getD j 0 = fill value) :
    SettingRun na start stop value (s.advance value na') ∧
      0 < (s.advance value na').count ∧ (s.advance value na').count < s.count ∧
      (s.advance value na').startBit / 8 - (s.advance value na').firstbyte =
        s.startBit / 8 - s.firstbyte + 8192 := by
  have haligned := hs.aligned
  have hfb := hs.firstbyte_eq
  have hstart := hs.start_le
  have hle := hs.firstbyte_le
  have hbufLe := hs.bufsize_le
  have htmp : s32 ((s.bufsize - s.firstbyte - s.lastbyte) * 8) = (8192 - s.firstbyte) * 8 := by
    rw [hbuf, hlast, sub_zero]
    exact s32_of_isS32 (isS32_iff.mpr (by omega))
  have hnext : s32 ((s.count - (8192 - s.firstbyte) * 8 + 7) / 8) =
      (s.count - (8192 - s.firstbyte) * 8 + 7) / 8 :=
    s32_of_isS32 (isS32_iff.mpr (by omega))
  unfold SetRunState.advance
  rw [htmp]
  have hlen : (if s.firstbyte ≠ 0 then s.buf.set 0 (fill value) else s.buf).length =
      s.buf.length := by
    split
    · exact length_set
    · rfl
  refine ⟨⟨⟨hsize, ?_, .inl rfl, ?_, ?_, fun k => ?_⟩, hlast, ?_, ?_, ?_, ?_, .inl ?_⟩,
    ?_, ?_, ?_⟩ <;> try dsimp only
  · omega
  · omega
  · omega
  · have hpos : (s.startBit + (8192 - s.firstbyte) * 8 - 8 * 0 : Int) =
        8 * (s.startBit / 8 - s.firstbyte + s.bufsize) := by omega
    rw [hpos, hbits]
  · intro hzero
    cases hzero
  · intro j _ hj
    rw [hlen] at hj
    split
    · by_cases hj0 : j = 0
      · rw [hj0, getD_set_self (fill value) (by omega)]
      · rw [getD_set_ne (fill value) (Ne.symm hj0)]
        exact hrest j (by omega) hj
    · exact hrest j (by omega) hj
  · omega
  · omega
  · omega
  · omega
  · omega
  · omega

end

/-- One iteration finishes the run, fails before its last byte is written, or keeps the
invariant. -/
lemma setRunStep_setting (hs : SettingRun na start stop value s) (hstop : stop ≤ 8 * na.size)
    (hbound : stop ≤ 8 * (2 ^ 31 + 8191))
    (hinside : s.startBit / 8 - s.firstbyte < (stop + 7) / 8) :
    (∃ s', setRunStep value s = .inl s' ∧ SettingRun na start stop value s' ∧
      s'.startBit / 8 - s'.firstbyte < (stop + 7) / 8 ∧ s'.count.toNat < s.count.toNat ∧
      (WindowsFit stop (s'.startBit / 8 - s'.firstbyte) ↔
        WindowsFit stop (s.startBit / 8 - s.firstbyte))) ∨
    (WindowsFit stop (s.startBit / 8 - s.firstbyte) ∧
      ∃ r, setRunStep value s = .inr r ∧ r.2 = .ok () ∧ r.1.size = na.size ∧
        ∀ k, r.1.bit k = runTarget na start stop value k) ∨
    (¬WindowsFit stop (s.startBit / 8 - s.firstbyte) ∧
      ∃ r, setRunStep value s = .inr r ∧ r.2 ≠ .ok () ∧
        r.1.bit (stop - 1) = na.bit (stop - 1)) := by
  have hle := hs.firstbyte_le
  have haligned := hs.aligned
  unfold WindowsFit setRunStep
  by_cases hlast : stop % 8 = 0 ∨ (stop + 7) / 8 - (s.startBit / 8 - s.firstbyte) < 2 ^ 31
  case neg =>
    rw [hs.readLast_before hbound (by omega) (by omega)]
    refine .inr (.inr ⟨by omega, _, rfl, (fun h => by cases h), ?_⟩)
    rw [hs.written, if_neg (by omega)]
  obtain ⟨s', hread, hprepared, hcount, hstart, hfirst⟩ := hs.readLast hstop hlast
  rw [hread]
  dsimp only
  rw [← hstart, ← hfirst] at hlast hinside hle ⊢
  by_cases hposition : s'.startBit / 8 - s'.firstbyte < 2 ^ 31
  case neg =>
    rw [hprepared.writeBuffer_refused hbound hinside (by omega)]
    refine .inr (.inr ⟨by omega, _, rfl, (fun h => by cases h), ?_⟩)
    rw [hprepared.written, if_neg (by omega)]
  obtain ⟨na', hwrite, hsize, hbits⟩ := hprepared.writeBuffer hstop hposition
  rw [hwrite]
  dsimp only
  rcases hprepared.remaining with ⟨hend, hleft, hlastbyte⟩ |
    ⟨hlastbyte, hend, hbuf, hmore, hbit, hrest⟩
  · obtain ⟨hdone, hzero⟩ := hprepared.advance_last na' hleft hlastbyte
    have hcap := hprepared.bufsize_cap
    rw [if_neg (by omega), if_neg (by omega)]
    refine .inr (.inl ⟨by omega, _, rfl, rfl, hsize, fun k => ?_⟩)
    change na'.bit k = _
    rw [hbits]
    by_cases hk : (k : Int) < 8 * (s'.startBit / 8 - s'.firstbyte + s'.bufsize)
    · rw [if_pos hk]
    · rw [if_neg hk, runTarget_outside (by omega)]
  · obtain ⟨hsetting, hpos, hlt, hnext⟩ :=
      hprepared.advance_more hbound hsize hbits hlastbyte hend hbuf hmore hbit hrest
    have hlb := hsetting.lastbyte_eq
    have haligned' := hprepared.aligned
    rw [if_neg (by omega), if_pos hpos]
    refine .inl ⟨_, rfl, hsetting, ?_, by omega, ?_⟩
    · omega
    · rw [hnext]
      omega

/-- Before the first iteration nothing is written, and the first partial byte is
in the buffer. -/
lemma setRunInitial_setting (value : Bool) (hrun : start ≤ stop) (hstop : stop ≤ 8 * na.size) :
    ∃ s, setRunInitial na start (stop - start) value = .ok s ∧
      SettingRun na start stop value s ∧ s.startBit / 8 - s.firstbyte = start / 8 := by
  have hfill : ∀ (n j : Nat), j < n → (replicate n (fill value)).getD j 0 = fill value :=
    fun n j hj => by simp [hj]
  unfold setRunInitial
  by_cases hbit : ((start : Int) % 8).toNat ≠ 0
  · have hsize : setRunBufsize start (stop - start) =
        min (((stop : Int) - start - (8 - (start : Int) % 8) + 7) / 8 + 1) 8192 := by
      rw [setRunBufsize, if_pos (by omega), if_pos (by omega)]
    obtain ⟨hcount, hbits⟩ := firstBits_spec value (na.byte ((start : Int) / 8).toNat)
      (Nat.pos_of_ne_zero hbit) (by omega) (by omega : 0 ≤ (stop : Int) - start)
    have hlen : 0 < (replicate (setRunBufsize start (stop - start)).toNat
        (fill value)).length := by
      rw [length_replicate]
      omega
    rw [if_pos hbit, na.pread_one (by omega) (by omega)]
    dsimp only
    rw [store_ok _ hlen]
    refine ⟨_, rfl, ⟨⟨rfl, ?_, .inr rfl, ?_, ?_, fun k => ?_⟩, rfl, fun _ i hi => ?_,
      fun j hj hlt => ?_,
      ?_, ?_, ?_⟩, ?_⟩ <;> try dsimp only
    · omega
    · omega
    · omega
    · rw [runTarget]
      split
      · rw [if_neg (by omega)]
      · rfl
    · rw [getD_set_self _ hlen, hbits i hi, ← na.bit_byte hi, runTarget]
      have hpos : 8 * ((start : Int) / 8).toNat + i =
          8 * (((start : Int) + 7) / 8 * 8 / 8 - 1).toNat + i := by omega
      rw [hpos]
      split <;> split <;> first | rfl | omega
    · dsimp only at hj
      rw [length_set, length_replicate] at hlt
      rw [getD_set_ne _ (by omega), hfill _ _ hlt]
    · rw [length_set, length_replicate]
      omega
    · omega
    · rw [hcount]
      split
      · omega
      · omega
    · omega
  · have hsize : setRunBufsize start (stop - start) =
      min (((stop : Int) - start + 7) / 8) 8192 := by
      rw [setRunBufsize, if_neg (by omega), if_neg (by omega), sub_zero, add_zero]
    rw [if_neg hbit]
    refine ⟨_, rfl, ⟨⟨rfl, ?_, .inl rfl, ?_, le_rfl, fun k => ?_⟩, rfl, fun h => ?_,
      fun j _ hlt => ?_,
      ?_, ?_, .inl ?_⟩, ?_⟩ <;> try dsimp only
    · omega
    · omega
    · rw [runTarget]
      split
      · rw [if_neg (by omega)]
      · rfl
    · cases h
    · rw [length_replicate] at hlt
      exact hfill _ _ hlt
    · rw [length_replicate]
      omega
    · omega
    · omega
    · omega

/-! ## Runs that do not fit -/

/-- The first byte that no window reaches. -/
def unreachedByte : Nat := 2 ^ 31 + 8191

lemma SetRunState.readLast_frame {s s' : SetRunState} (h : s.readLast value = .ok s') :
    s'.na = s.na ∧ s'.buf.length = s.buf.length := by
  unfold SetRunState.readLast at h
  dsimp only at h
  split_ifs at h
  · split at h
    · cases h
    · cases h
    · split at h
      · cases h
      · next hstore =>
        cases h
        rw [store] at hstore
        split_ifs at hstore
        cases hstore
        exact ⟨rfl, length_set⟩
  · cases h
    exact ⟨rfl, rfl⟩
  · cases h
    exact ⟨rfl, rfl⟩

lemma SetRunState.writeBuffer_frame {s : SetRunState} (hbuf : s.buf.length ≤ 8192)
    (h : s.writeBuffer = .ok na') (hj : unreachedByte ≤ j) : na'.byte j = s.na.byte j := by
  have hint := isS32_iff.mp (s32_isS32 (s.startBit / 8 - s.firstbyte))
  have hlen : (s.buf.take s.bufsize.toNat).length ≤ 8192 := by
    rw [length_take]
    omega
  unfold unreachedByte at hj
  unfold SetRunState.writeBuffer AttrData.pwrite at h
  split_ifs at h <;> cases h
  · rfl
  · exact if_neg (by omega)

/-- One iteration leaves the bytes alone that no window reaches. -/
lemma setRunStep_frame (hbuf : s.buf.length ≤ 8192) (hj : unreachedByte ≤ j) :
    (∀ s', setRunStep value s = .inl s' → s'.buf.length ≤ 8192 ∧ s'.na.byte j = s.na.byte j) ∧
      ∀ r, setRunStep value s = .inr r → r.1.byte j = s.na.byte j := by
  unfold setRunStep
  cases hread : s.readLast value with
  | error e => exact ⟨fun _ h => (by cases h), fun _ h => by cases h; rfl⟩
  | ok s₁ =>
    obtain ⟨hna, hlen⟩ := SetRunState.readLast_frame hread
    dsimp only
    cases hwrite : s₁.writeBuffer with
    | error e => exact ⟨fun _ h => (by cases h), fun _ h => by cases h; rw [hna]⟩
    | ok na₁ =>
      have hbyte := SetRunState.writeBuffer_frame (hlen.trans_le hbuf) hwrite hj
      rw [hna] at hbyte
      have hadvance : (s₁.advance value na₁).buf.length = s₁.buf.length := by
        rw [SetRunState.advance]
        dsimp only
        split <;> simp
      dsimp only
      constructor
      · intro s' h
        split_ifs at h
        cases h
        exact ⟨hadvance.trans_le (hlen.trans_le hbuf), hbyte⟩
      · intro r h
        split_ifs at h <;> cases h <;> exact hbyte

lemma setRunInitial_buf {start : Int} (h : setRunInitial na start count value = .ok s) :
    s.buf.length ≤ 8192 ∧ s.na = na := by
  have hsize : (setRunBufsize start count).toNat ≤ 8192 := by
    rw [setRunBufsize]
    omega
  unfold setRunInitial at h
  dsimp only at h
  split_ifs at h
  · split at h
    · cases h
    · cases h
    · split at h
      · cases h
      · next hstore =>
        rw [store] at hstore
        split_ifs at hstore
        cases hstore
        cases h
        rw [length_set, length_replicate]
        exact ⟨hsize, rfl⟩
  · cases h
    rw [length_replicate]
    exact ⟨hsize, rfl⟩

/-- Bytes behind the positions of an `int` are never written. -/
lemma bitmapSetBitsInRun_frame {start : Int}
    (h : bitmapSetBitsInRun fuel hasMemory na start count value = some (na', r))
    (hj : unreachedByte ≤ j) : na'.byte j = na.byte j := by
  unfold bitmapSetBitsInRun at h
  split_ifs at h
  · cases h
    rfl
  · cases hinitial : setRunInitial na start count value with
    | error e =>
      rw [hinitial] at h
      cases h
      rfl
    | ok s =>
      rw [hinitial] at h
      obtain ⟨hbuf, rfl⟩ := setRunInitial_buf hinitial
      let Kept (s' : SetRunState) : Prop := s'.buf.length ≤ 8192 ∧ s'.na.byte j = s.na.byte j
      refine Loop.run_post Kept (fun r => r.1.byte j = s.na.byte j)
        (fun s₁ s₂ h₁ hstep => ?_) (fun s₁ r h₁ hstep => ?_) ⟨hbuf, rfl⟩ h
      · obtain ⟨hlen, hbyte⟩ := (setRunStep_frame h₁.1 hj).1 s₂ hstep
        exact ⟨hlen, hbyte.trans h₁.2⟩
      · exact ((setRunStep_frame h₁.1 hj).2 r hstep).trans h₁.2
  · cases h
    rfl

/-! ## The whole run -/

lemma bitmapSetBitsInRun_mono {start : Int} (hle : n ≤ m)
    (h : bitmapSetBitsInRun n hasMemory na start count value = some r) :
    bitmapSetBitsInRun m hasMemory na start count value = some r := by
  unfold bitmapSetBitsInRun at h ⊢
  split_ifs at h ⊢
  · exact h
  · cases hinitial : setRunInitial na start count value with
    | error e =>
      rw [hinitial] at h
      exact h
    | ok s =>
      rw [hinitial] at h
      exact Loop.run_mono hle h
  · exact h

/-- What a single write leaves behind and returns. -/
def writeResult (na : AttrData) : Except Failure AttrData → AttrData × Except Failure Unit
  | .error e => (na, .error e)
  | .ok na' => (na', .ok ())

/-- Without bits left the buffer is written and the loop ends. -/
lemma SettingRun.step_last (hs : SettingRun na start stop value s) (hcount : s.count ≤ 0) :
    setRunStep value s = .inr (writeResult s.na s.writeBuffer) := by
  have hread : s.readLast value = .ok s := by
    rw [SetRunState.readLast, if_neg (by omega)]
  have hprepared := hs.prepared (.inl hcount)
  have hfirst := hs.firstbyte_eq
  rw [setRunStep, hread]
  dsimp only
  cases s.writeBuffer with
  | error e => rfl
  | ok na' =>
    rcases hprepared.remaining with ⟨_, hleft, hlast⟩ | ⟨_, _, _, hmore, _⟩
    · obtain ⟨hdone, hzero⟩ := hprepared.advance_last na' hleft hlast
      dsimp only
      rw [if_neg (by omega), if_neg (by omega)]
      rfl
    · omega

/-- An empty run: a partial byte is read, and written back. -/
lemma bitmapSetBitsInRun_zero (fuel : Nat) (hstart : start ≤ 8 * na.size) :
    bitmapSetBitsInRun (fuel + 1) true na start 0 value =
      some (writeResult na (na.pwrite (s32 (start / 8))
        (if start % 8 = 0 then [] else [na.byte (start / 8)]))) := by
  obtain ⟨s, hinitial, hs, hposition⟩ := setRunInitial_setting value le_rfl hstart
  rw [sub_self] at hinitial
  have hna := (setRunInitial_buf hinitial).2
  have hstartLe := hs.start_le
  have haligned := hs.aligned
  have hlen := hs.bufsize_le
  have hfirst := hs.firstbyte_eq
  rw [bitmapSetBitsInRun, if_neg (by omega), if_pos rfl, hinitial]
  refine Loop.run_inr fuel ?_
  have hbytes : s.buf.take s.bufsize.toNat =
      if start % 8 = 0 then [] else [na.byte (start / 8)] := by
    obtain ⟨_, hend, hsize, _⟩ | ⟨_, hlo, hhi, hone, hsize⟩ := hs.remaining
    · obtain hzero : s.bufsize.toNat = 0 := by omega
      rw [if_pos (by omega), hzero, take_zero]
    · obtain ⟨b, rest, hbuf⟩ := exists_cons_of_length_pos (by omega : 0 < s.buf.length)
      have hb : b = na.byte (start / 8) := by
        refine eq_of_getBit fun i hi => ?_
        have hhead := hs.head hone i hi
        rw [hbuf, getD_cons_zero, runTarget_outside (by omega), na.bit_byte hi] at hhead
        rw [hhead]
        congr
        omega
      rw [if_neg (by omega), hbuf, hsize, hb]
      rfl
  have hwrite : s.writeBuffer =
      na.pwrite (s32 (start / 8)) (if start % 8 = 0 then [] else [na.byte (start / 8)]) := by
    have := hs.bufsize_nonneg
    rw [SetRunState.writeBuffer, if_neg (by omega), if_neg (by omega), hposition, hbytes, hna]
  rw [hs.step_last, hwrite, hna]
  obtain ⟨_, _, _⟩ | ⟨_, _⟩ := hs.remaining <;> omega

/-- A run that fits is set, and no other bit changes. -/
lemma bitmapSetBitsInRun_spec (na : AttrData) (hrun : start ≤ stop) (hstop : stop ≤ 8 * na.size)
    (hfits : SetRunFits start (stop - start)) :
    ∃ fuel na', (∀ n ≥ fuel,
        bitmapSetBitsInRun n true na start (stop - start) value = some (na', .ok ())) ∧
      na'.size = na.size ∧ ∀ k, na'.bit k = runTarget na start stop value k := by
  unfold SetRunFits at hfits
  split_ifs at hfits with hempty
  · obtain rfl : stop = start := by omega
    refine ⟨1, na, fun n hn => ?_, rfl, fun k => ?_⟩
    · obtain ⟨n, rfl⟩ := Nat.exists_eq_add_of_le' hn
      rw [sub_self, bitmapSetBitsInRun_zero n hstop, if_pos (by omega), AttrData.pwrite,
        if_neg (by omega), if_pos rfl]
      rfl
    · rw [runTarget_outside (by omega)]
  · obtain ⟨s, hinitial, hs, hposition⟩ := setRunInitial_setting value hrun hstop
    rw [Nat.add_sub_cancel' hrun, ← hposition] at hfits
    have hinside : s.startBit / 8 - s.firstbyte < (stop + 7) / 8 := by omega
    have hbound : stop ≤ 8 * (2 ^ 31 + 8191) := by
      have := hfits.1
      omega
    let Inv (s : SetRunState) : Prop := SettingRun na start stop value s ∧
      s.startBit / 8 - s.firstbyte < (stop + 7) / 8 ∧
      WindowsFit stop (s.startBit / 8 - s.firstbyte)
    have hstep : ∀ s, Inv s → (∃ s', setRunStep value s = .inl s' ∧ Inv s' ∧
        s'.count.toNat < s.count.toNat) ∨ ∃ r, setRunStep value s = .inr r ∧ r.2 = .ok () ∧
          r.1.size = na.size ∧ ∀ k, r.1.bit k = runTarget na start stop value k := by
      rintro s ⟨hs, hinside, hfits⟩
      rcases setRunStep_setting hs hstop hbound hinside with
        ⟨s', hnext, hs', hinside', hlt, hiff⟩ | ⟨_, hdone⟩ | ⟨hno, _⟩
      · exact .inl ⟨s', hnext, ⟨hs', hinside', hiff.mpr hfits⟩, hlt⟩
      · exact .inr hdone
      · exact absurd hfits hno
    obtain ⟨fuel, ⟨na', r⟩, hloop, rfl, hsize, hbits⟩ :=
      Loop.run_total (fun s : SetRunState => s.count.toNat) hstep ⟨hs, hinside, hfits⟩
    refine ⟨fuel, na', fun n hn => ?_, hsize, hbits⟩
    rw [bitmapSetBitsInRun, if_neg (by omega), hinitial]
    exact Loop.run_mono hn hloop

/-- The last bit of a run that does not fit keeps its value: the call fails, or the bit is
behind all the windows. -/
lemma bitmapSetBitsInRun_missed (hrun : start < stop) (hstop : stop ≤ 8 * na.size)
    (hfits : ¬SetRunFits start (stop - start))
    (h : bitmapSetBitsInRun fuel true na start (stop - start) value = some (na', r)) :
    na'.bit (stop - 1) = na.bit (stop - 1) ∧ (r ≠ .ok () ∨ unreachedByte ≤ (stop - 1) / 8) := by
  by_cases hfar : unreachedByte ≤ (stop - 1) / 8
  · refine ⟨?_, .inr hfar⟩
    rw [AttrData.bit, AttrData.bit, bitmapSetBitsInRun_frame h hfar]
  obtain ⟨s, hinitial, hs, hposition⟩ := setRunInitial_setting value hrun.le hstop
  unfold unreachedByte at hfar
  rw [SetRunFits, if_neg (by omega), Nat.add_sub_cancel' hrun.le, ← hposition] at hfits
  rw [bitmapSetBitsInRun, if_neg (by omega), hinitial] at h
  have hend : na'.bit (stop - 1) = na.bit (stop - 1) ∧ r ≠ .ok () := by
    refine Loop.run_post (fun s => SettingRun na start stop value s ∧
        s.startBit / 8 - s.firstbyte < (stop + 7) / 8 ∧
        ¬WindowsFit stop (s.startBit / 8 - s.firstbyte))
      (fun r => r.1.bit (stop - 1) = na.bit (stop - 1) ∧ r.2 ≠ .ok ())
      ?_ ?_ ⟨hs, by omega, hfits⟩ h
    · rintro s₁ s₂ ⟨hs, hinside, hfits⟩ hstep
      rcases setRunStep_setting hs hstop (by omega) hinside with
        ⟨s', hnext, hs', hinside', _, hiff⟩ | ⟨hyes, _⟩ | ⟨_, r, hno, _⟩
      · cases hstep.symm.trans hnext
        exact ⟨hs', hinside', mt hiff.mp hfits⟩
      · exact absurd hyes hfits
      · cases hstep.symm.trans hno
    · rintro s₁ r ⟨hs, hinside, hfits⟩ hstep
      rcases setRunStep_setting hs hstop (by omega) hinside with
        ⟨s', hnext, _⟩ | ⟨hyes, _⟩ | ⟨_, r', hno, herror, hbit⟩
      · cases hstep.symm.trans hnext
      · exact absurd hyes hfits
      · cases hstep.symm.trans hno
        exact ⟨hbit, herror⟩
  exact ⟨hend.1, .inl hend.2⟩

/-- The run is set, and nothing else. -/
def SetsRun (na : AttrData) (start count : Nat) (value : Bool) : Prop :=
  ∃ fuel na', (∀ n ≥ fuel, bitmapSetBitsInRun n true na start count value = some (na', .ok ())) ∧
    na'.size = na.size ∧
    ∀ k, na'.bit k = if start ≤ k ∧ k < start + count then value else na.bit k

lemma setRunFits_zero (hstart : start ≤ 8 * size)
    (hall : ∀ byte, SetsRun ⟨size, byte⟩ start 0 value) : SetRunFits start 0 := by
  -- The byte that is read differs from all others.
  obtain ⟨fuel, na', hrun, _, hbits⟩ := hall fun k => if k = start / 8 then 0xff else 0
  have hcall := hrun (fuel + 1) (Nat.le_succ fuel)
  rw [Nat.cast_zero, bitmapSetBitsInRun_zero fuel hstart, AttrData.pwrite] at hcall
  by_cases hneg : s32 ((start : Int) / 8) < 0
  · rw [if_pos hneg] at hcall
    cases hcall
  · rw [if_neg hneg] at hcall
    rw [SetRunFits, add_zero]
    by_cases hbit : start % 8 = 0
    · rw [if_pos hbit]
      omega
    · rw [if_neg hbit, if_neg (cons_ne_nil _ _)] at hcall
      cases hcall
      have hsame : (s32 ((start : Int) / 8)).toNat = start / 8 := by
        by_contra hne
        have hzero := hbits (8 * (s32 ((start : Int) / 8)).toNat)
        rw [if_neg (by omega), AttrData.bit, AttrData.bit, Nat.mul_div_cancel_left _ (by decide),
          Nat.mul_mod_right] at hzero
        simp [hne] at hzero
        revert hzero
        decide
      have hint := isS32_iff.mp (s32_isS32 ((start : Int) / 8))
      rw [if_neg hbit]
      exact ⟨by omega, by omega⟩

/-- Exactly the bits of a run change, whatever the bitmap contains, if and only if the
positions fit into an `int`. -/
theorem bitmapSetBitsInRun_exact_iff (size start count : Nat) (value : Bool)
    (hstop : start + count ≤ 8 * size) :
    (∀ byte, SetsRun ⟨size, byte⟩ start count value) ↔ SetRunFits start count := by
  constructor
  · intro hall
    by_cases hcount : count = 0
    · subst hcount
      exact setRunFits_zero hstop hall
    · by_contra hfits
      -- All bits of the bitmap have the other value.
      obtain ⟨fuel, na', hrun, _, hbits⟩ := hall fun _ => fill !value
      have hcall := hrun fuel le_rfl
      rw [← Nat.add_sub_cancel_left (n := start) (m := count)] at hfits hcall
      rw [Nat.cast_sub (Nat.le_add_right start count)] at hcall
      have hlast := (bitmapSetBitsInRun_missed (by omega) hstop hfits hcall).1
      rw [hbits, if_pos (by omega), AttrData.bit, getBit_fill _ (Nat.mod_lt _ (by decide))] at hlast
      cases value <;> cases hlast
  · intro hfits byte
    rw [← Nat.add_sub_cancel_left (n := start) (m := count)] at hfits
    obtain ⟨fuel, na', hrun, hsize, hbits⟩ :=
      bitmapSetBitsInRun_spec ⟨size, byte⟩ (Nat.le_add_right start count) hstop hfits
    refine ⟨fuel, na', fun n hn => ?_, hsize, hbits⟩
    rw [← hrun n hn]
    congr
    omega

/-- The window of the run starts in the last byte that an `int` can point to. -/
theorem bitmapSetBitsInRun_exact_last_position :
    (∀ byte, SetsRun ⟨2 ^ 31 + 8191, byte⟩ (2 ^ 34 - 8) 60000 true) ∧
      SetRunFits (2 ^ 34 - 8) 60000 := by
  have hfits : SetRunFits (2 ^ 34 - 8) 60000 := by
    rw [SetRunFits, if_neg (by decide)]
    exact ⟨by decide, by decide⟩
  exact ⟨(bitmapSetBitsInRun_exact_iff _ _ _ _ (by decide)).mpr hfits, hfits⟩

/-- The position of a byte behind `2 ^ 31 - 1` is negative as an `int`, and the write is
refused. -/
theorem bitmapSetBitsInRun_int_position :
    2 ^ 34 + 1 ≤ 8 * (2 ^ 31 + 8) ∧ ∀ fuel, (bitmapSetBitsInRun (fuel + 1) true
      ⟨2 ^ 31 + 8, fun _ => 0⟩ (2 ^ 34) 1 true).map Prod.snd = some (.error (.errno .einval)) :=
  ⟨by decide, fun _ => rfl⟩

end

end NtfsDxe
