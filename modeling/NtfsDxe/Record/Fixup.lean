import Mathlib.Tactic.Common

/-! # Multi sector transfer protection

A protected record carries the update sequence number in the last word of each of
its 512-byte sectors. The words that belong there are kept in the update sequence
array, behind the number itself. Records are addressed by 16-bit words, as all the
accesses to them are.
-/

namespace NtfsDxe

open Function

abbrev RecordWords := Nat → UInt16

namespace RecordWords

section

variable (b : RecordWords)

/-- `b->usa_ofs`. -/
def usaOfs : UInt16 := b 2

/-- `b->usa_count - 1`, the number of fixups. -/
def fixups : UInt16 := b 3 - 1

/-- The word at which the update sequence array starts. -/
def usaPos : Nat := b.usaOfs.toNat / 2

def usn : UInt16 := b b.usaPos

def isBaadRecord : Bool := b 0 == 0x4142 && b 1 == 0x4441

def isHoleRecord : Bool := b 0 == 0x4f48 && b 1 == 0x454c

/-- Overwrite the magic with `BAAD`. -/
def setBaad : RecordWords :=
  update (update b 0 0x4142) 1 0x4441

end

end RecordWords

inductive FixupError where
  | einval
  | eio

/-- `NTFS_BLOCK_SIZE / sizeof(u16)`. -/
def blockWords : Nat := 256

section

variable (b : RecordWords)

/-- The size and alignment checks, which fail here. -/
def RecordWords.misfits (size : UInt32) : Bool :=
  size &&& 511 != 0 || b.usaOfs &&& 1 != 0 ||
    size.toNat < b.usaOfs.toNat + b.fixups.toNat * 2 || size.toNat / 512 != b.fixups.toNat

/-- Save the last words of `count` sectors behind `usaPos` and put `usn` in their place. -/
def protectLoop (usn : UInt16) : (count usaPos dataPos : Nat) → RecordWords → RecordWords
  | 0, _, _, b => b
  | count + 1, usaPos, dataPos, b =>
    let b := update b (usaPos + 1) (b dataPos)
    protectLoop usn count (usaPos + 1) (dataPos + blockWords) (update b dataPos usn)

/-- The last words of `count` sectors are all `usn`. -/
def checkLoop (usn : UInt16) : (count dataPos : Nat) → RecordWords → Bool
  | 0, _, _ => true
  | count + 1, dataPos, b =>
    if b dataPos != usn then false else checkLoop usn count (dataPos + blockWords) b

/-- Put the words behind `usaPos` back to the ends of `count` sectors. -/
def restoreLoop : (count usaPos dataPos : Nat) → RecordWords → RecordWords
  | 0, _, _, b => b
  | count + 1, usaPos, dataPos, b =>
    restoreLoop count (usaPos + 1) (dataPos + blockWords)
      (update b dataPos (b (usaPos + 1)))

/-- The next update sequence number; 0 and 0xffff are skipped. -/
def nextUsn (usn : UInt16) : UInt16 :=
  let usn := usn + 1
  if usn == 0xffff || usn == 0 then 1 else usn

def mstPreWriteFixup (size : UInt32) : Except FixupError RecordWords :=
  if b.isBaadRecord || b.isHoleRecord then .error .einval
  else if b.misfits size then .error .einval
  else
    let usn := nextUsn b.usn
    .ok (protectLoop usn b.fixups.toNat b.usaPos (blockWords - 1) (update b b.usaPos usn))

/-- `ntfs_mst_post_read_fixup`: the record is changed by a failure as well. -/
def mstPostReadFixup (size : UInt32) : Except FixupError Unit × RecordWords :=
  if b.misfits size then (.error .einval, b)
  else if checkLoop b.usn b.fixups.toNat (blockWords - 1) b then
    (.ok (), restoreLoop b.fixups.toNat b.usaPos (blockWords - 1) b)
  else (.error .eio, b.setBaad)

def mstPostWriteFixup : RecordWords :=
  restoreLoop b.fixups.toNat b.usaPos (blockWords - 1) b

/-! ## The loops -/

section Loops

/-- The words behind `usaPos` and the ends of the sectors are different words. -/
def UsaApart (count usaPos dataPos : Nat) : Prop :=
  ∀ j < count, ∀ k < count, usaPos + 1 + j ≠ dataPos + blockWords * k

lemma UsaApart.tail (h : UsaApart (count + 1) usaPos dataPos) :
    UsaApart count (usaPos + 1) (dataPos + blockWords) := by
  intro j hj k hk heq
  apply h (j + 1) (Nat.succ_lt_succ hj) (k + 1) (Nat.succ_lt_succ hk)
  rw [Nat.mul_succ]
  omega

variable {b : RecordWords}

lemma UsaApart.slot_ne (h : UsaApart (count + 1) usaPos dataPos) (hj : j < count + 1) :
    usaPos + 1 + j ≠ dataPos := by
  have hne := h j hj 0 (Nat.succ_pos count)
  exact hne

lemma UsaApart.end_ne (h : UsaApart (count + 1) usaPos dataPos) (hk : k < count + 1) :
    dataPos + blockWords * k ≠ usaPos + 1 := by
  have hne := h 0 (Nat.succ_pos count) k hk
  exact hne.symm

/-- The loop writes to the array and to the ends of the sectors only. -/
lemma protectLoop_other (hslot : ∀ j < count, i ≠ usaPos + 1 + j)
    (hend : ∀ k < count, i ≠ dataPos + blockWords * k) :
    protectLoop usn count usaPos dataPos b i = b i := by
  induction count generalizing usaPos dataPos b with
  | zero => rfl
  | succ count ih =>
    have hslot0 : i ≠ usaPos + 1 := by simpa using hslot 0 (Nat.succ_pos count)
    have hend0 : i ≠ dataPos := by simpa using hend 0 (Nat.succ_pos count)
    rw [protectLoop, ih, update_of_ne hend0, update_of_ne hslot0]
    · intro j hj
      have hne := hslot (j + 1) (Nat.succ_lt_succ hj)
      omega
    · intro k hk
      have hne := hend (k + 1) (Nat.succ_lt_succ hk)
      rw [Nat.mul_succ] at hne
      omega

lemma sectorEnd_succ : dataPos + blockWords * (k + 1) = dataPos + blockWords + blockWords * k := by
  rw [Nat.mul_succ]
  omega

lemma slot_succ : usaPos + 1 + (j + 1) = usaPos + 1 + 1 + j := by
  omega

lemma protectLoop_end (h : UsaApart count usaPos dataPos) (hk : k < count) :
    protectLoop usn count usaPos dataPos b (dataPos + blockWords * k) = usn := by
  induction count generalizing usaPos dataPos b k with
  | zero => cases hk
  | succ count ih =>
    rw [protectLoop]
    cases k with
    | zero =>
      simp only [Nat.mul_zero, Nat.add_zero]
      rw [protectLoop_other, update_self]
      · intro j hj
        rw [← slot_succ]
        exact (h.slot_ne (Nat.succ_lt_succ hj)).symm
      · rw [blockWords]
        omega
    | succ k =>
      rw [sectorEnd_succ]
      exact ih h.tail (Nat.lt_of_succ_lt_succ hk)

lemma protectLoop_slot (h : UsaApart count usaPos dataPos) (hj : j < count) :
    protectLoop usn count usaPos dataPos b (usaPos + 1 + j) = b (dataPos + blockWords * j) := by
  induction count generalizing usaPos dataPos b j with
  | zero => cases hj
  | succ count ih =>
    rw [protectLoop]
    cases j with
    | zero =>
      have hne := h.slot_ne (Nat.succ_pos count)
      simp only [Nat.mul_zero, Nat.add_zero]
      rw [protectLoop_other, update_of_ne hne, update_self]
      · omega
      · intro k hk
        rw [← sectorEnd_succ]
        exact (h.end_ne (Nat.succ_lt_succ hk)).symm
    | succ j =>
      -- the word that is saved later has not been written to yet
      have hend : dataPos + blockWords * (j + 1) ≠ dataPos := by
        rw [blockWords]
        omega
      have hslot := h.end_ne hj
      rw [slot_succ, ih h.tail (Nat.lt_of_succ_lt_succ hj), ← sectorEnd_succ,
        update_of_ne hend, update_of_ne hslot]

lemma checkLoop_eq_true :
    checkLoop usn count dataPos b = true ↔ ∀ k < count, b (dataPos + blockWords * k) = usn := by
  induction count generalizing dataPos with
  | zero => simp [checkLoop]
  | succ count ih =>
    rw [checkLoop]
    by_cases hfirst : b dataPos = usn
    · rw [if_neg (by simpa using hfirst), ih]
      constructor
      · intro h k hk
        cases k with
        | zero => simpa using hfirst
        | succ k =>
          rw [sectorEnd_succ]
          exact h k (Nat.lt_of_succ_lt_succ hk)
      · intro h k hk
        rw [← sectorEnd_succ]
        exact h (k + 1) (Nat.succ_lt_succ hk)
    · rw [if_pos (by simpa using hfirst)]
      constructor
      · intro h
        cases h
      · intro h
        exact absurd (by simpa using h 0 (Nat.succ_pos count)) hfirst

lemma restoreLoop_other (hend : ∀ k < count, i ≠ dataPos + blockWords * k) :
    restoreLoop count usaPos dataPos b i = b i := by
  induction count generalizing usaPos dataPos b with
  | zero => rfl
  | succ count ih =>
    have hend0 : i ≠ dataPos := by simpa using hend 0 (Nat.succ_pos count)
    rw [restoreLoop, ih, update_of_ne hend0]
    intro k hk
    have hne := hend (k + 1) (Nat.succ_lt_succ hk)
    rw [Nat.mul_succ] at hne
    omega

lemma restoreLoop_end (h : UsaApart count usaPos dataPos) (hk : k < count) :
    restoreLoop count usaPos dataPos b (dataPos + blockWords * k) = b (usaPos + 1 + k) := by
  induction count generalizing usaPos dataPos b k with
  | zero => cases hk
  | succ count ih =>
    rw [restoreLoop]
    cases k with
    | zero =>
      simp only [Nat.mul_zero, Nat.add_zero]
      rw [restoreLoop_other, update_self]
      rw [blockWords]
      omega
    | succ k =>
      have hslot : usaPos + 1 + 1 + k ≠ dataPos := by
        rw [← slot_succ]
        exact h.slot_ne hk
      rw [sectorEnd_succ, slot_succ, ih h.tail (Nat.lt_of_succ_lt_succ hk), update_of_ne hslot]

end Loops

/-! ## Protecting a record and reading it back -/

/-- The update sequence array lies inside the record and contains no last word of a
sector, and it has one entry for each sector besides the number. -/
structure HasUsa (b : RecordWords) (size : UInt32) : Prop where
  size_pos : 0 < size.toNat
  size_dvd : 512 ∣ size.toNat
  ofs_even : 2 ∣ b.usaOfs.toNat
  count_eq : (b 3).toNat = size.toNat / 512 + 1
  inside : b.usaOfs.toNat + (size.toNat / 512 + 1) * 2 ≤ size.toNat
  off_ends : ∀ j ≤ size.toNat / 512, ∀ k < size.toNat / 512,
    b.usaPos + j ≠ blockWords - 1 + blockWords * k

/-- The update sequence array does not contain the words that describe it. -/
def ClearOfHeader (size : UInt32) : Prop :=
  ∀ j ≤ size.toNat / 512, b.usaPos + j ≠ 2 ∧ b.usaPos + j ≠ 3

section Records

variable {b : RecordWords}

lemma HasUsa.fixups_eq (h : HasUsa b size) : b.fixups.toNat = size.toNat / 512 := by
  have hone : (1 : UInt16) ≤ b 3 := by
    rw [UInt16.le_iff_toNat_le, h.count_eq]
    exact Nat.succ_le_succ (Nat.zero_le _)
  rw [RecordWords.fixups, UInt16.toNat_sub_of_le _ _ hone, h.count_eq]
  rfl

lemma misfits_eq_false : b.misfits size = false ↔ 512 ∣ size.toNat ∧ 2 ∣ b.usaOfs.toNat ∧
    b.usaOfs.toNat + b.fixups.toNat * 2 ≤ size.toNat ∧ size.toNat / 512 = b.fixups.toNat := by
  have hsize : (size &&& 511).toNat = size.toNat % 512 :=
    Nat.and_two_pow_sub_one_eq_mod size.toNat 9
  have hofs : (b.usaOfs &&& 1).toNat = b.usaOfs.toNat % 2 := Nat.and_one_is_mod b.usaOfs.toNat
  simp only [RecordWords.misfits, Bool.or_eq_false_iff, bne_eq_false_iff_eq,
    decide_eq_false_iff_not, Nat.not_lt, ← UInt32.toNat_inj, ← UInt16.toNat_inj, hsize, hofs,
    Nat.dvd_iff_mod_eq_zero, and_assoc]
  rfl

lemma HasUsa.not_misfits (h : HasUsa b size) : b.misfits size = false := by
  have hinside := h.inside
  rw [misfits_eq_false, h.fixups_eq]
  exact ⟨h.size_dvd, h.ofs_even, by omega, rfl⟩

lemma HasUsa.apart (h : HasUsa b size) : UsaApart (size.toNat / 512) b.usaPos (blockWords - 1) := by
  intro j hj k hk
  rw [Nat.add_assoc]
  exact h.off_ends (1 + j) (by omega) k hk

section

variable {b' : RecordWords}

lemma usaOfs_congr (h2 : b' 2 = b 2) : b'.usaOfs = b.usaOfs := h2

lemma usaPos_congr (h2 : b' 2 = b 2) : b'.usaPos = b.usaPos := by
  rw [RecordWords.usaPos, RecordWords.usaPos, usaOfs_congr h2]

lemma fixups_congr (h3 : b' 3 = b 3) : b'.fixups = b.fixups := by
  rw [RecordWords.fixups, RecordWords.fixups, h3]

/-- The sizes are checked in the first words of the record only. -/
lemma misfits_congr (h2 : b' 2 = b 2) (h3 : b' 3 = b 3) : b'.misfits size = b.misfits size := by
  rw [RecordWords.misfits, RecordWords.misfits, usaOfs_congr h2, fixups_congr h3]

end

lemma nextUsn_spec : nextUsn usn ≠ 0 ∧ nextUsn usn ≠ 0xffff ∧ nextUsn usn ≠ usn := by
  have hsucc : usn + 1 ≠ usn := by
    intro h
    have hnat := congrArg UInt16.toNat h
    have hone : (1 : UInt16).toNat = 1 := rfl
    rw [UInt16.toNat_add] at hnat
    omega
  rw [nextUsn]
  by_cases hskip : usn + 1 = 0xffff ∨ usn + 1 = 0
  · rw [if_pos (by simpa using hskip)]
    refine ⟨by decide, by decide, ?_⟩
    rintro rfl
    exact absurd hskip (by decide)
  · rw [if_neg (by simpa using hskip)]
    exact ⟨fun h => hskip (.inr h), fun h => hskip (.inl h), hsucc⟩

/-- The image that `ntfs_mst_pre_write_fixup` makes of a record. -/
structure Protects (b : RecordWords) (size : UInt32) (p : RecordWords) : Prop where
  usn : p b.usaPos = nextUsn b.usn
  ends : ∀ k < size.toNat / 512, p (blockWords - 1 + blockWords * k) = nextUsn b.usn
  slots : ∀ k < size.toNat / 512, p (b.usaPos + 1 + k) = b (blockWords - 1 + blockWords * k)
  other : ∀ i, (∀ j ≤ size.toNat / 512, i ≠ b.usaPos + j) →
    (∀ k < size.toNat / 512, i ≠ blockWords - 1 + blockWords * k) → p i = b i

lemma HasUsa.protects (h : HasUsa b size) :
    Protects b size (protectLoop (nextUsn b.usn) b.fixups.toNat b.usaPos (blockWords - 1)
      (update b b.usaPos (nextUsn b.usn))) := by
  have hends : ∀ k < size.toNat / 512, blockWords - 1 + blockWords * k ≠ b.usaPos := by
    intro k hk
    exact (h.off_ends 0 (Nat.zero_le _) k hk).symm
  rw [h.fixups_eq]
  refine ⟨?_, fun k hk => protectLoop_end h.apart hk, ?_, ?_⟩
  · rw [protectLoop_other, update_self]
    · omega
    · intro k hk
      exact (hends k hk).symm
  · intro k hk
    rw [protectLoop_slot h.apart hk, update_of_ne (hends k hk)]
  · intro i hslot hend
    have hpos : i ≠ b.usaPos := by simpa using hslot 0 (Nat.zero_le _)
    rw [protectLoop_other, update_of_ne hpos]
    · intro j hj
      rw [Nat.add_assoc]
      exact hslot (1 + j) (by omega)
    · exact hend

lemma Protects.header (h : Protects b size p) (hclear : ClearOfHeader b size) :
    p 2 = b 2 ∧ p 3 = b 3 := by
  constructor
  · apply h.other
    · intro j hj
      exact (hclear j hj).1.symm
    · rw [blockWords]
      omega
  · apply h.other
    · intro j hj
      exact (hclear j hj).2.symm
    · rw [blockWords]
      omega

lemma HasUsa.preWriteFixup (h : HasUsa b size) (hbaad : b.isBaadRecord = false)
    (hhole : b.isHoleRecord = false) :
    ∃ p, mstPreWriteFixup b size = .ok p ∧ Protects b size p := by
  refine ⟨_, ?_, h.protects⟩
  rw [mstPreWriteFixup, hbaad, hhole, h.not_misfits]
  rfl

/-- A protected record passes the check, and each sector gets its last word back. -/
lemma Protects.postReadFixup (h : Protects b size p) (husa : HasUsa b size)
    (hclear : ClearOfHeader b size) :
    mstPostReadFixup p size =
      (.ok (), restoreLoop (size.toNat / 512) b.usaPos (blockWords - 1) p) := by
  obtain ⟨h2, h3⟩ := h.header hclear
  have husn : p.usn = nextUsn b.usn := by
    rw [RecordWords.usn, usaPos_congr h2]
    exact h.usn
  have hcheck : checkLoop p.usn (size.toNat / 512) (blockWords - 1) p = true := by
    rw [checkLoop_eq_true, husn]
    exact h.ends
  rw [mstPostReadFixup, misfits_congr h2 h3, husa.not_misfits, fixups_congr h3, husa.fixups_eq,
    usaPos_congr h2, hcheck]
  rfl

lemma Protects.restored (h : Protects b size p) (husa : HasUsa b size)
    (hi : ∀ j ≤ size.toNat / 512, i ≠ b.usaPos + j) :
    restoreLoop (size.toNat / 512) b.usaPos (blockWords - 1) p i = b i := by
  by_cases hend : ∃ k < size.toNat / 512, i = blockWords - 1 + blockWords * k
  · obtain ⟨k, hk, rfl⟩ := hend
    rw [restoreLoop_end husa.apart hk, h.slots k hk]
  · have hend' : ∀ k < size.toNat / 512, i ≠ blockWords - 1 + blockWords * k := by
      intro k hk heq
      exact hend ⟨k, hk, heq⟩
    rw [restoreLoop_other hend', h.other i hi hend']

/-- Protecting a record and reading it back restores it outside the update sequence
array, if the array does not contain the words that describe it. -/
theorem mstFixup_roundTrip (h : HasUsa b size) (hbaad : b.isBaadRecord = false)
    (hhole : b.isHoleRecord = false) (hclear : ClearOfHeader b size) :
    ∃ p r, mstPreWriteFixup b size = .ok p ∧ mstPostReadFixup p size = (.ok (), r) ∧
      (∀ i, (∀ j ≤ size.toNat / 512, i ≠ b.usaPos + j) → r i = b i) ∧
      mstPostWriteFixup p = r ∧ p.usn ≠ 0 ∧ p.usn ≠ 0xffff ∧ p.usn ≠ b.usn := by
  obtain ⟨p, hpre, hp⟩ := h.preWriteFixup hbaad hhole
  obtain ⟨h2, h3⟩ := hp.header hclear
  have husn : p.usn = nextUsn b.usn := by
    rw [RecordWords.usn, usaPos_congr h2]
    exact hp.usn
  have hpost : mstPostWriteFixup p =
    restoreLoop (size.toNat / 512) b.usaPos (blockWords - 1) p := by
    rw [mstPostWriteFixup, fixups_congr h3, h.fixups_eq, usaPos_congr h2]
  refine ⟨p, _, hpre, hp.postReadFixup h hclear, fun i hi => hp.restored h hi, hpost, ?_⟩
  rw [husn]
  exact nextUsn_spec

end Records

/-- A record of two sectors with its update sequence array at byte 48. -/
def sampleRecord : RecordWords := fun i =>
  if i = 0 then 0x4946 else if i = 1 then 0x454c else if i = 2 then 48 else if i = 3 then 3
  else if i = 255 then 7 else if i = 511 then 8 else 0

lemma sampleRecord_hasUsa : HasUsa sampleRecord 1024 where
  size_pos := by decide
  size_dvd := by decide
  ofs_even := by decide
  count_eq := by decide
  inside := by decide
  off_ends := by
    have hpos : sampleRecord.usaPos = 24 := by decide
    have hcount : (1024 : UInt32).toNat / 512 = 2 := by decide
    rw [blockWords]
    omega

lemma sampleRecord_clear : ClearOfHeader sampleRecord 1024 := by
  have hpos : sampleRecord.usaPos = 24 := by decide
  intro j hj
  omega

theorem sampleRecord_roundTrip :
    ∃ p r, mstPreWriteFixup sampleRecord 1024 = .ok p ∧ mstPostReadFixup p 1024 = (.ok (), r) ∧
      (∀ i, (∀ j ≤ (1024 : UInt32).toNat / 512, i ≠ sampleRecord.usaPos + j) →
        r i = sampleRecord i) ∧
      mstPostWriteFixup p = r ∧ p.usn ≠ 0 ∧ p.usn ≠ 0xffff ∧ p.usn ≠ sampleRecord.usn :=
  mstFixup_roundTrip sampleRecord_hasUsa (by decide) (by decide) sampleRecord_clear

/-- A record of one sector whose update sequence array covers its own offset. -/
def overlappingRecord : RecordWords := fun i =>
  if i = 2 then 2 else if i = 3 then 2 else if i = 255 then 9 else 0

lemma overlappingRecord_hasUsa : HasUsa overlappingRecord 512 where
  size_pos := by decide
  size_dvd := by decide
  ofs_even := by decide
  count_eq := by decide
  inside := by decide
  off_ends := by
    have hpos : overlappingRecord.usaPos = 1 := by decide
    have hcount : (512 : UInt32).toNat / 512 = 1 := by decide
    rw [blockWords]
    omega

/-- The saved word is stored where the offset of the array was. -/
theorem overlappingRecord_unreadable :
    HasUsa overlappingRecord 512 ∧ overlappingRecord.isBaadRecord = false ∧
      overlappingRecord.isHoleRecord = false ∧
      ∃ p, mstPreWriteFixup overlappingRecord 512 = .ok p ∧
        (mstPostReadFixup p 512).1 = .error .einval :=
  ⟨overlappingRecord_hasUsa, by decide, by decide, _, rfl, by rfl⟩

/-! ## Torn writes -/

def mixSectors (fromFirst : Nat → Bool) (p p' : RecordWords) : RecordWords := fun i =>
  if fromFirst (i / blockWords) then p i else p' i

section Torn

variable {b b' p p' : RecordWords}

/-- What `ntfs_mst_pre_write_fixup` accepts has an update sequence array, if the latter
lies in the first sector. -/
lemma hasUsa_of_preWriteFixup (hpre : mstPreWriteFixup b size = .ok p)
    (hfirst : b.usaPos + size.toNat / 512 < blockWords - 1) (hsize : 0 < size.toNat / 512) :
    HasUsa b size ∧ Protects b size p := by
  rw [mstPreWriteFixup] at hpre
  split at hpre
  · cases hpre
  · split at hpre
    · cases hpre
    next hmisfits =>
      obtain ⟨hdvd, hofs, -, hcount⟩ := misfits_eq_false.mp (Bool.not_eq_true _ ▸ hmisfits)
      have hthree : (b 3).toNat = size.toNat / 512 + 1 := by
        -- the counter of fixups has not wrapped, since there are fewer than 256
        have hsub : b.fixups.toNat + 1 = (b.fixups + 1).toNat := by
          rw [UInt16.toNat_add]
          have hone : (1 : UInt16).toNat = 1 := rfl
          rw [blockWords] at hfirst
          omega
        rw [hcount, hsub, RecordWords.fixups, UInt16.sub_add_cancel]
      have husa : HasUsa b size := by
        have hpos : b.usaOfs.toNat = b.usaPos * 2 := (Nat.div_mul_cancel hofs).symm
        rw [blockWords] at hfirst
        refine ⟨by omega, hdvd, hofs, hthree, by omega, ?_⟩
        rw [blockWords]
        omega
      refine ⟨husa, ?_⟩
      obtain rfl := Except.ok.inj hpre
      exact husa.protects

/-- A record that is put together from two successive images is rejected. -/
theorem mstPostReadFixup_torn (hpre : mstPreWriteFixup b size = .ok p)
    (hfirst : b.usaPos + size.toNat / 512 < blockWords - 1) (hclear : ClearOfHeader b size)
    (hofs : b' 2 = mstPostWriteFixup p 2) (hcount : b' 3 = mstPostWriteFixup p 3)
    (husn : b' b.usaPos = mstPostWriteFixup p b.usaPos)
    (hpre' : mstPreWriteFixup b' size = .ok p') {fromFirst : Nat → Bool}
    (hold : ∃ k < size.toNat / 512, fromFirst k = true)
    (hnew : ∃ k < size.toNat / 512, fromFirst k = false) :
    mstPostReadFixup (mixSectors fromFirst p p') size =
      (.error .eio, (mixSectors fromFirst p p').setBaad) := by
  obtain ⟨k, hk, hkold⟩ := hold
  obtain ⟨k', hk', hknew⟩ := hnew
  have hsize : 0 < size.toNat / 512 := Nat.zero_lt_of_lt hk
  obtain ⟨husa, hp⟩ := hasUsa_of_preWriteFixup hpre hfirst hsize
  obtain ⟨h2, h3⟩ := hp.header hclear
  -- deprotecting the first image changes neither its header nor its number
  have hpost : mstPostWriteFixup p =
    restoreLoop (size.toNat / 512) b.usaPos (blockWords - 1) p := by
    rw [mstPostWriteFixup, fixups_congr h3, husa.fixups_eq, usaPos_congr h2]
  have hkept : ∀ i < blockWords - 1, mstPostWriteFixup p i = p i := by
    intro i hi
    rw [hpost, restoreLoop_other]
    omega
  have hpos : b.usaPos < blockWords - 1 := by omega
  have hofs' : b' 2 = b 2 := (hofs.trans (hkept 2 (by decide))).trans h2
  have hcount' : b' 3 = b 3 := (hcount.trans (hkept 3 (by decide))).trans h3
  have hpos' := usaPos_congr hofs'
  have husn' : b'.usn = nextUsn b.usn := by
    rw [RecordWords.usn, hpos', husn, hkept _ hpos, hp.usn]
  have hfirst' : b'.usaPos + size.toNat / 512 < blockWords - 1 := by rw [hpos']; exact hfirst
  have hclear' : ClearOfHeader b' size := by
    intro j hj
    rw [hpos']
    exact hclear j hj
  obtain ⟨husa', hp'⟩ := hasUsa_of_preWriteFixup hpre' hfirst' hsize
  obtain ⟨h2', h3'⟩ := hp'.header hclear'
  have hdiffer : nextUsn b'.usn ≠ nextUsn b.usn := by
    rw [husn']
    exact nextUsn_spec.2.2
  have htorn2 : mixSectors fromFirst p p' 2 = b 2 := by
    rw [mixSectors]
    split
    · exact h2
    · exact h2'.trans hofs'
  have htorn3 : mixSectors fromFirst p p' 3 = b 3 := by
    rw [mixSectors]
    split
    · exact h3
    · exact h3'.trans hcount'
  have hsector : ∀ k, (blockWords - 1 + blockWords * k) / blockWords = k := by
    rw [blockWords]
    omega
  have hend : ∀ k < size.toNat / 512, mixSectors fromFirst p p' (blockWords - 1 + blockWords * k) =
      if fromFirst k then nextUsn b.usn else nextUsn b'.usn := by
    intro k hk
    rw [mixSectors, hsector]
    split
    · exact hp.ends k hk
    · exact hp'.ends k hk
  have hcheck : checkLoop (mixSectors fromFirst p p').usn (size.toNat / 512) (blockWords - 1)
      (mixSectors fromFirst p p') = false := by
    rw [Bool.eq_false_iff]
    intro hall
    rw [checkLoop_eq_true] at hall
    have hk := (hend k hk).symm.trans (hall k hk)
    have hk' := (hend k' hk').symm.trans (hall k' hk')
    rw [hkold] at hk
    rw [hknew] at hk'
    exact hdiffer (hk'.trans hk.symm)
  rw [mstPostReadFixup, misfits_congr htorn2 htorn3, husa.not_misfits, fixups_congr htorn3,
    husa.fixups_eq, hcheck]
  rfl

end Torn

def sampleImage : RecordWords :=
  protectLoop 1 2 24 255 (update sampleRecord 24 1)

def sampleNextImage : RecordWords :=
  protectLoop 2 2 24 255
    (update (update (mstPostWriteFixup sampleImage) 100 5) 24 2)

theorem sampleImage_torn :
    mstPostReadFixup (mixSectors (fun k => k == 0) sampleImage sampleNextImage) 1024 =
      (.error .eio, (mixSectors (fun k => k == 0) sampleImage sampleNextImage).setBaad) :=
  @mstPostReadFixup_torn sampleRecord (update (mstPostWriteFixup sampleImage) 100 5)
    sampleImage sampleNextImage 1024 rfl (by decide) sampleRecord_clear rfl rfl rfl rfl _
    ⟨0, by decide, rfl⟩ ⟨1, by decide, rfl⟩

/-- Two successive versions of a record whose update sequence array covers its offset:
only the last word of the first sector changes. -/
def coveredRecord (lastWord : UInt16) (usn : UInt16) : RecordWords := fun i =>
  if i = 1 then usn else if i = 2 then 2 else if i = 3 then 3
  else if i = 255 then lastWord else if i = 511 then 3 else 0

/-- The first sector of the second image and the second one of the first image are
rejected by the size checks, and the magic is not changed. -/
theorem coveredRecord_torn_einval :
    ∃ p p', mstPreWriteFixup (coveredRecord 2 0) 1024 = .ok p ∧
      (coveredRecord 2 0).usaPos + (1024 : UInt32).toNat / 512 < blockWords - 1 ∧
      (∀ i < 512, i ≠ 255 → coveredRecord 9 1 i = mstPostWriteFixup p i) ∧
      mstPreWriteFixup (coveredRecord 9 1) 1024 = .ok p' ∧
      (mstPostReadFixup (mixSectors (fun k => k == 1) p p') 1024).1 = .error .einval := by
  refine ⟨_, _, rfl, by decide, ?_, rfl, rfl⟩
  decide +kernel

/-! ## The words that are accessed -/

/-- The words that `protectLoop` and `restoreLoop` read and write. -/
def loopWords : (count usaPos dataPos : Nat) → List Nat
  | 0, _, _ => []
  | count + 1, usaPos, dataPos =>
    (usaPos + 1) :: dataPos :: loopWords count (usaPos + 1) (dataPos + blockWords)

/-- The words that `checkLoop` reads. -/
def checkWords (usn : UInt16) : (count dataPos : Nat) → RecordWords → List Nat
  | 0, _, _ => []
  | count + 1, dataPos, b =>
    dataPos :: if b dataPos != usn then [] else checkWords usn count (dataPos + blockWords) b

/-- The words of the record for `ntfs_mst_pre_write_fixup` once it is accepted. -/
def preWriteWords : List Nat :=
  b.usaPos :: loopWords b.fixups.toNat b.usaPos (blockWords - 1)

/-- Those for `ntfs_mst_post_read_fixup`: `usa_count` is read again before the
sectors are restored, and the magic is written after a mismatch. -/
def postReadWords : List Nat :=
  b.usaPos :: (checkWords b.usn b.fixups.toNat (blockWords - 1) b ++
    if checkLoop b.usn b.fixups.toNat (blockWords - 1) b then
      3 :: loopWords b.fixups.toNat b.usaPos (blockWords - 1)
    else [0, 1])

end

section Inside

lemma loopWords_lt (hd : dataPos + blockWords * count < n + blockWords) :
    (∀ i ∈ loopWords count usaPos dataPos, i < n) ↔ (0 < count → usaPos + count < n) := by
  induction count generalizing usaPos dataPos with
  | zero => simp [loopWords]
  | succ count ih =>
    rw [Nat.mul_succ] at hd
    rw [loopWords, List.forall_mem_cons, List.forall_mem_cons, ih (by omega)]
    omega

lemma checkWords_lt (hd : dataPos + blockWords * count < n + blockWords) :
    ∀ i ∈ checkWords usn count dataPos b, i < n := by
  induction count generalizing dataPos with
  | zero => simp [checkWords]
  | succ count ih =>
    rw [Nat.mul_succ] at hd
    rw [checkWords, List.forall_mem_cons]
    refine ⟨by omega, ?_⟩
    split
    · simp
    · exact ih (by omega)

/-- Behind the size checks all words lie in the record, exactly if the update
sequence array does: the checks leave out its last entry. A record with a torn
sector is given up before that entry is read. -/
theorem fixupWords_inside_iff (h : b.misfits size = false) :
    ((∀ i ∈ preWriteWords b, 2 * i + 2 ≤ size.toNat) ↔
      b.usaOfs.toNat + (b.fixups.toNat + 1) * 2 ≤ size.toNat) ∧
    ((∀ i ∈ postReadWords b, 2 * i + 2 ≤ size.toNat) ↔
      b.usaOfs.toNat + (b.fixups.toNat + 1) * 2 ≤ size.toNat ∨
        checkLoop b.usn b.fixups.toNat (blockWords - 1) b = false) := by
  obtain ⟨hdvd, heven, hfit, hcount⟩ := misfits_eq_false.mp h
  have hword : ∀ i, 2 * i + 2 ≤ size.toNat ↔ i < blockWords * b.fixups.toNat := by
    rw [blockWords]
    omega
  have hends : blockWords - 1 + blockWords * b.fixups.toNat <
      blockWords * b.fixups.toNat + blockWords := by
    rw [blockWords]
    omega
  have hpos : b.usaPos = b.usaOfs.toNat / 2 := rfl
  have hchecked : ∀ i ∈ checkWords b.usn b.fixups.toNat (blockWords - 1) b,
      i < blockWords * b.fixups.toNat := checkWords_lt hends
  simp only [hword, preWriteWords, postReadWords, List.forall_mem_cons, List.forall_mem_append,
    loopWords_lt hends]
  refine ⟨by rw [blockWords]; omega, ?_⟩
  rw [and_iff_right hchecked]
  cases hcheck : checkLoop b.usn b.fixups.toNat (blockWords - 1) b with
  | true =>
    rw [if_pos rfl, List.forall_mem_cons, loopWords_lt hends, blockWords]
    simp only [Bool.true_eq_false, or_false]
    omega
  | false =>
    -- one sector at least has been compared
    have hsome : b.fixups.toNat ≠ 0 := by
      intro hnone
      rw [hnone] at hcheck
      cases hcheck
    simp only [Bool.false_eq_true, if_false, List.forall_mem_cons, or_true, iff_true, blockWords]
    refine ⟨by omega, by omega, by omega, by simp⟩

end Inside

theorem fixupWords_inside_sample : (∀ i ∈ preWriteWords sampleRecord, 2 * i + 2 ≤ 1024) ∧
    ∀ i ∈ postReadWords sampleRecord, 2 * i + 2 ≤ 1024 :=
  have h := @fixupWords_inside_iff sampleRecord 1024 (by decide)
  ⟨h.1.mpr (by decide), h.2.mpr (.inl (by decide))⟩

/-- A record of one sector whose update sequence array starts at its last word: the
entry for the sector lies behind the record. -/
theorem fixupWords_behind : ∃ b : RecordWords, b.misfits 512 = false ∧
    256 ∈ preWriteWords b ∧ 256 ∈ postReadWords b :=
  ⟨fun i => if i = 2 then 510 else if i = 3 then 2 else 0, by decide⟩

end NtfsDxe
