import NtfsDxe.Cluster.Alloc

/-! # The longest range of clear bits

`max_empty_bit_range` goes over a window once. What it has kept so far is the longest range
that has ended, next to the range it is in.
-/

namespace NtfsDxe

open Foundation Bits EmptyRange List

def windowBit (buf : Buffer) (k : Nat) : Bool := getBit (buf.getD (k / 8) 0) (k % 8)

/-- The `n` bits from `a` on are clear. -/
def ClearRange (buf : Buffer) (a n : Nat) : Prop :=
  ∀ k, a ≤ k → k < a + n → windowBit buf k = false

lemma ClearRange.mono (h : ClearRange buf a n) (hle : m ≤ n) : ClearRange buf a m :=
  fun k hlo hhi => h k hlo (lt_of_lt_of_le hhi (Nat.add_le_add_left hle a))

lemma ClearRange.eq_zero (h : ClearRange buf a n) (hfit : a + n ≤ 8 * buf.length)
    (hused : ∀ k < 8 * buf.length, windowBit buf k = true) : n = 0 := by
  by_contra hne
  have hset := hused a (by omega)
  rw [h a (le_refl a) (by omega)] at hset
  cases hset

/-- The lengths of all ranges of clear bits fit an `int`. -/
def ShortRanges (buf : Buffer) : Prop :=
  ∀ a n : Nat, a + n ≤ 8 * buf.length → ClearRange buf a n → n < 2 ^ 31

namespace EmptyRange

/-- The window has been gone over up to the bit `pos`. -/
structure Scanned (buf : Buffer) (pos : Nat) (r : EmptyRange) : Prop where
  run_nonneg : 0 ≤ r.run
  run_le : r.run ≤ pos
  run_clear : ClearRange buf (pos - r.run.toNat) r.run.toNat
  run_whole : ∀ a n : Nat, a + n = pos → ClearRange buf a n → (n : Int) ≤ r.run
  longest : ∀ a n : Nat, a + n ≤ pos → ClearRange buf a n → (n : Int) ≤ max r.maxRange r.run
  kept : r.maxRange = 0 ∧ r.startPos = -1 ∨ 0 < r.maxRange ∧ 0 ≤ r.startPos ∧
    r.startPos + r.maxRange ≤ pos ∧ ClearRange buf r.startPos.toNat r.maxRange.toNat

variable {r : EmptyRange}

lemma scanned_start : Scanned buf 0 { run := 0, maxRange := 0, startPos := -1 } where
  run_nonneg := le_refl 0
  run_le := le_refl 0
  run_clear := fun k _ hlt => absurd hlt (by simp)
  run_whole := by
    dsimp only
    omega
  longest := by
    dsimp only
    omega
  kept := .inl ⟨rfl, rfl⟩

lemma Scanned.s32_run (h : Scanned buf pos { r with run := n }) (hshort : ShortRanges buf)
    (hpos : pos ≤ 8 * buf.length) : Scanned buf pos { r with run := s32 n } := by
  have hnonneg := h.run_nonneg
  have hle := h.run_le
  have hlt := hshort _ _ (by omega) h.run_clear
  rw [s32_of_isS32 (isS32_iff.mpr (by dsimp only at *; omega))]
  exact h

/-- A clear bit makes the range longer. -/
lemma Scanned.clear (h : Scanned buf pos r) (hbit : windowBit buf pos = false) :
    Scanned buf (pos + 1) { r with run := r.run + 1 } := by
  have hnonneg := h.run_nonneg
  have hle := h.run_le
  have hwhole : ∀ a n : Nat, a + n = pos + 1 → ClearRange buf a n → (n : Int) ≤ r.run + 1 := by
    intro a n hend hclear
    cases n with
    | zero => omega
    | succ n =>
      have := h.run_whole a n (by omega) (hclear.mono (Nat.le_succ n))
      omega
  refine ⟨by dsimp only; omega, by dsimp only; omega, ?_, hwhole, ?_, ?_⟩
  · intro k hlo hhi
    dsimp only at hlo hhi
    rcases lt_or_ge k pos with hlt | hge
    · exact h.run_clear k (by omega) (by omega)
    · obtain rfl : k = pos := by omega
      exact hbit
  · intro a n hend hclear
    dsimp only
    rcases lt_or_ge (a + n) (pos + 1) with hlt | hge
    · have := h.longest a n (by omega) hclear
      omega
    · have := hwhole a n (by omega) hclear
      omega
  · dsimp only
    rcases h.kept with hnone | ⟨hpos, hstart, hfit, hclear⟩
    · exact .inl hnone
    · exact .inr ⟨hpos, hstart, by omega, hclear⟩

/-- A set bit ends the range. -/
lemma Scanned.close (h : Scanned buf pos r) (hbit : windowBit buf pos = true) :
    Scanned buf (pos + 1) (r.close pos) := by
  have hnonneg := h.run_nonneg
  have hle := h.run_le
  -- a range up to the set bit is empty
  have hempty : ∀ a n : Nat, a + n = pos + 1 → ClearRange buf a n → n = 0 := by
    intro a n hend hclear
    by_contra hne
    have hset := hclear pos (by omega) (by omega)
    rw [hbit] at hset
    cases hset
  have hbest : ∀ a n : Nat, a + n ≤ pos + 1 → ClearRange buf a n →
      (n : Int) ≤ max r.maxRange r.run := by
    intro a n hend hclear
    rcases lt_or_ge (a + n) (pos + 1) with hlt | hge
    · exact h.longest a n (by omega) hclear
    · have := hempty a n (by omega) hclear
      omega
  rw [EmptyRange.close]
  by_cases hlonger : r.maxRange < r.run
  · rw [if_pos hlonger]
    refine ⟨le_refl 0, Int.natCast_nonneg _, fun k hlo hhi => ?_, ?_, ?_,
      .inr ⟨?_, by dsimp only; omega, by dsimp only; omega, ?_⟩⟩
    · exact absurd (lt_of_lt_of_le hhi hlo) (lt_irrefl k)
    · intro a n hend hclear
      have := hempty a n hend hclear
      dsimp only
      omega
    · intro a n hend hclear
      have := hbest a n hend hclear
      dsimp only
      omega
    · rcases h.kept with ⟨hzero, -⟩ | ⟨hpos, -⟩
      · dsimp only
        omega
      · dsimp only
        omega
    · have hstart : ((pos : Int) - r.run).toNat = pos - r.run.toNat := by omega
      rw [hstart]
      exact h.run_clear
  · rw [if_neg hlonger]
    refine ⟨le_refl 0, Int.natCast_nonneg _, fun k hlo hhi => ?_, ?_, ?_, ?_⟩
    · exact absurd (lt_of_lt_of_le hhi hlo) (lt_irrefl k)
    · intro a n hend hclear
      have := hempty a n hend hclear
      dsimp only
      omega
    · intro a n hend hclear
      have := hbest a n hend hclear
      dsimp only
      omega
    · dsimp only
      rcases h.kept with hnone | ⟨hpos, hstart, hfit, hclear⟩
      · exact .inl hnone
      · exact .inr ⟨hpos, hstart, by omega, hclear⟩

/-- Outside of a range, further set bits change nothing. -/
lemma close_of_run_zero (hrun : r.run = 0) (hmax : 0 ≤ r.maxRange) : r.close p = r := by
  rw [close, if_neg (by omega), ← hrun]

lemma close_run : (r.close p).run = 0 := by
  rw [close]
  split <;> rfl

lemma Scanned.max_nonneg (h : Scanned buf pos r) : 0 ≤ r.maxRange := by
  rcases h.kept with ⟨hzero, -⟩ | ⟨hpos, -⟩
  · exact hzero.ge
  · exact hpos.le

lemma Scanned.clear_many (h : Scanned buf pos r) (n : Nat)
    (hbits : ∀ j < n, windowBit buf (pos + j) = false) :
    Scanned buf (pos + n) { r with run := r.run + n } := by
  induction n with
  | zero =>
    rw [Int.natCast_zero, Int.add_zero]
    exact h
  | succ n ih =>
    have hnext := (ih fun j hj => hbits j (Nat.lt_succ_of_lt hj)).clear
      (hbits n (Nat.lt_succ_self n))
    rw [Int.natCast_succ, ← Int.add_assoc]
    exact hnext

lemma Scanned.close_many (h : Scanned buf pos r) (n : Nat)
    (hbits : ∀ j ≤ n, windowBit buf (pos + j) = true) :
    Scanned buf (pos + n + 1) (r.close pos) := by
  induction n with
  | zero => exact h.close (hbits 0 (le_refl 0))
  | succ n ih =>
    have hbefore := ih fun j hj => hbits j (Nat.le_succ_of_le hj)
    have hnext := hbefore.close (hbits (n + 1) (le_refl _))
    rw [close_of_run_zero close_run hbefore.max_nonneg] at hnext
    exact hnext

/-- The loop over the bits of a byte. -/
lemma Scanned.bits (hshort : ShortRanges buf) (hi : i < buf.length) (hbyte : buf.getD i 0 = b)
    (hn : n ≤ 8) (h : Scanned buf (8 * i + (8 - n)) r) :
    Scanned buf (8 * i + 8) (bits i b n r) := by
  induction n generalizing r with
  | zero => exact h
  | succ n ih =>
    have hbit : windowBit buf (8 * i + (8 - (n + 1))) = getBit b (7 - n) := by
      have hdiv : (8 * i + (8 - (n + 1))) / 8 = i := by omega
      have hmod : (8 * i + (8 - (n + 1))) % 8 = 7 - n := by omega
      rw [windowBit, hdiv, hmod, hbyte]
    have hpos : 8 * i + (8 - n) = 8 * i + (8 - (n + 1)) + 1 := by omega
    rw [bits]
    cases hset : getBit b (7 - n) with
    | true =>
      apply ih (by omega)
      have hclosed := h.close (hbit.trans hset)
      have hcast : ((8 * i + (8 - (n + 1)) : Nat) : Int) = i * 8 + (7 - n : Nat) := by omega
      rw [hcast] at hclosed
      rw [hpos]
      exact hclosed
    | false =>
      apply ih (by omega)
      rw [hpos]
      exact (h.clear (hbit.trans hset)).s32_run hshort (by omega)

/-- What `max_empty_bit_range` yields. -/
def Longest (buf : Buffer) (m : Int) : Prop :=
  m = -1 ∧ (∀ k < 8 * buf.length, windowBit buf k = true) ∨
    ∃ start n : Nat, m = start ∧ 0 < n ∧ start + n ≤ 8 * buf.length ∧ ClearRange buf start n ∧
      ∀ a l : Nat, a + l ≤ 8 * buf.length → ClearRange buf a l → l ≤ n

lemma Scanned.finish (h : Scanned buf (8 * buf.length) r) :
    Longest buf (if r.maxRange < r.run then (buf.length : Int) * 8 - r.run else r.startPos) := by
  have hle := h.run_le
  by_cases hlonger : r.maxRange < r.run
  · have hmax := h.max_nonneg
    refine .inr ⟨8 * buf.length - r.run.toNat, r.run.toNat, by omega, by omega, by omega,
      h.run_clear, ?_⟩
    intro a l hend hclear
    have := h.longest a l hend hclear
    omega
  · rw [if_neg hlonger]
    rcases h.kept with ⟨hzero, hstart⟩ | ⟨hpos, hstart, hfit, hclear⟩
    · refine .inl ⟨hstart, ?_⟩
      intro k hk
      by_contra hset
      have hbit : windowBit buf k = false := Bool.eq_false_iff.mpr hset
      have hone : ClearRange buf k 1 := by
        intro j hlo hhi
        obtain rfl : j = k := by omega
        exact hbit
      have := h.longest k 1 (by omega) hone
      omega
    · refine .inr ⟨r.startPos.toNat, r.maxRange.toNat, by omega, by omega, by omega, hclear, ?_⟩
      intro a l hend hrange
      have := h.longest a l hend hrange
      omega

lemma Scanned.bytes (hshort : ShortRanges buf) (hrest : buf.drop i = rest) (hi : i ≤ buf.length)
    (h : Scanned buf (8 * i) r) : Longest buf (bytes i rest r) := by
  induction rest generalizing i r with
  | nil =>
    obtain rfl : i = buf.length := by
      have := drop_eq_nil_iff.mp hrest
      omega
    exact h.finish
  | cons b rest ih =>
    have hlt : i < buf.length := by
      by_contra hge
      rw [drop_eq_nil_of_le (by omega)] at hrest
      cases hrest
    have hbyte : buf.getD i 0 = b := by
      rw [getD_eq_getElem?_getD, ← add_zero i, ← getElem?_drop, hrest]
      rfl
    have hdrop : buf.drop (i + 1) = rest := by
      rw [← drop_drop, hrest]
      rfl
    have hbit : ∀ j < 8, windowBit buf (8 * i + j) = getBit b j := by
      intro j hj
      have hdiv : (8 * i + j) / 8 = i := by omega
      have hmod : (8 * i + j) % 8 = j := by omega
      rw [windowBit, hdiv, hmod, hbyte]
    rw [bytes]
    by_cases hzero : b = 0
    · rw [if_pos hzero]
      apply ih hdrop hlt
      have hcleared := h.clear_many 8 fun j hj => by
        rw [hbit j hj, hzero]
        exact getBit_fill false hj
      exact hcleared.s32_run hshort (by omega)
    · rw [if_neg hzero]
      by_cases hones : b = 255
      · rw [if_pos hones]
        apply ih hdrop hlt
        have hclosed := h.close_many 7 fun j hj => by
          rw [hbit j (by omega), hones]
          exact getBit_fill true (by omega)
        have hcast : ((8 * i : Nat) : Int) = i * 8 := by omega
        rw [hcast] at hclosed
        exact hclosed
      · rw [if_neg hones]
        apply ih hdrop hlt
        exact Scanned.bits hshort hlt hbyte (le_refl 8) h

end EmptyRange

/-- `max_empty_bit_range` yields the begin of a longest range of clear bits. -/
lemma maxEmptyBitRange_longest (hshort : ShortRanges buf) :
    EmptyRange.Longest buf (maxEmptyBitRange buf) :=
  scanned_start.bytes hshort rfl (Nat.zero_le _)

/-- `max_empty_bit_range` yields `-1` exactly if no bit is clear, and else the begin of a longest
range of clear bits, as long as the lengths of the ranges fit an `int`. -/
theorem maxEmptyBitRange_spec (hshort : ShortRanges buf) :
    (maxEmptyBitRange buf = -1 ↔ ∀ k < 8 * buf.length, windowBit buf k = true) ∧
      EmptyRange.Longest buf (maxEmptyBitRange buf) := by
  have hlongest := maxEmptyBitRange_longest hshort
  refine ⟨?_, hlongest⟩
  rcases hlongest with ⟨hnone, hused⟩ | ⟨start, n, hstart, hpos, hfit, hclear, -⟩
  · exact iff_of_true hnone hused
  · exact iff_of_false (by omega) fun hused => hpos.ne' (hclear.eq_zero hfit hused)

theorem maxEmptyBitRange_spec_four :
    maxEmptyBitRange [15, 0, 255, 3] = 4 ∧
      EmptyRange.Longest [15, 0, 255, 3] (maxEmptyBitRange [15, 0, 255, 3]) :=
  ⟨by decide +kernel, (maxEmptyBitRange_spec fun a n hfit _ => by simp at hfit; omega).2⟩

lemma EmptyRange.bytes_zero {n : Nat} (hrun : s32 (x + 8 * n) ≤ 0) :
    bytes i (replicate n 0) { run := s32 x, maxRange := 0, startPos := -1 } = -1 := by
  induction n generalizing i x with
  | zero =>
    rw [Int.natCast_zero, mul_zero, add_zero] at hrun
    exact if_neg (not_lt.mpr hrun)
  | succ n ih =>
    have hnext : s32 (s32 x + 8) = s32 (x + 8) := by
      rw [add_comm, s32, s32, SignedBytes.wrap_add_wrap, add_comm, s32]
    rw [replicate_succ, bytes, if_pos rfl, hnext]
    apply ih
    have hsum : x + 8 + 8 * (n : Int) = x + 8 * (n + 1 : Nat) := by omega
    rw [hsum]
    exact hrun

lemma maxEmptyBitRange_zero (n : Nat) (hrun : s32 (8 * n) ≤ 0) :
    maxEmptyBitRange (replicate n 0) = -1 := by
  rw [← zero_add (8 * (n : Int))] at hrun
  exact bytes_zero hrun

/-- The range of a window of clear bytes is lost when its length does not fit. -/
theorem maxEmptyBitRange_overflow :
    maxEmptyBitRange (replicate (2 ^ 28) 0) = -1 ∧
      windowBit (replicate (2 ^ 28) 0) 0 = false := by
  refine ⟨maxEmptyBitRange_zero _ (by decide), ?_⟩
  rw [windowBit, getD_eq_getElem?_getD, getElem?_replicate, if_pos (by decide)]
  exact getBit_fill false (by decide)

end NtfsDxe
