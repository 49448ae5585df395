import NtfsDxe.Core.Machine
import NtfsDxe.Record.Fixup

/-! # The mirror of the mft

`ntfs_mft_records_write` writes records to `$MFT` and those of them that are mirrored to
`$MFTMirr`. Both writes protect the records on their own, from two copies of one buffer. The
contents of a buffer and of the two attributes are addressed by 16-bit words.
-/

namespace NtfsDxe

/-! ## Writing protected records -/

/-- How `ntfs_attr_pwrite` of records ends: all are stored, only so many of the first ones, or
none with an error. -/
inductive WriteResult where
  | all
  | part (n : Nat)
  | failed (e : Errno)
  deriving DecidableEq

def WriteResult.stored (asked : Nat) : WriteResult → Nat
  | .all => asked
  | .part n => min n asked
  | .failed _ => 0

/-- Why a write of records returns -1. -/
inductive MftWriteError where
  | einval
  | espipe
  | enomem
  | eio
  | device (e : Errno)
  deriving DecidableEq

def WriteResult.returned (asked : Nat) : WriteResult → Except MftWriteError Nat
  | .all => .ok asked
  | .part n => .ok (min n asked)
  | .failed e => .error (.device e)

section

variable (size : UInt32)

def recordWords : Nat := size.toNat / 2

/-- Protect the record at index `i` of a buffer, in place. -/
def protectAt (b : RecordWords) (i : Nat) : Except FixupError RecordWords :=
  match mstPreWriteFixup (fun j => b (i * recordWords size + j)) size with
  | .error e => .error e
  | .ok r => .ok fun j => if j < i * recordWords size then b j else r (j - i * recordWords size)

/-- The first loop of `ntfs_attr_mst_pwrite`, from index `i` on: the index at which it ends
and the buffer. -/
def protectRecords (size : UInt32) : Nat → Nat → RecordWords → Nat × RecordWords
  | 0, i, b => (i, b)
  | count + 1, i, b =>
    match protectAt size b i with
    | .error _ => (i, b)
    | .ok b => protectRecords size count (i + 1) b

/-- The words of an attribute after `n` records of a buffer have been stored from record `m`
on. -/
def storeRecords (disk : Nat → UInt16) (m n : Nat) (p : RecordWords) :
    Nat → UInt16 := fun j =>
  if m * recordWords size ≤ j ∧ j < (m + n) * recordWords size then p (j - m * recordWords size)
  else disk j

/-- `ntfs_attr_mst_pwrite` of `count` records to record `m`: what the attribute then holds and
the number that is returned. -/
def attrMstPwrite (result : WriteResult) (disk : Nat → UInt16) (m count : Nat) (src : RecordWords) :
    (Nat → UInt16) × Except MftWriteError Nat :=
  if size.toNat % 512 ≠ 0 then (disk, .error .einval)
  else if count = 0 then (disk, .ok 0)
  else
    let prepared := protectRecords size count 0 src
    if prepared.1 = 0 then (disk, .error .einval)
    else
      (storeRecords size disk m (result.stored prepared.1) prepared.2, result.returned prepared.1)

/-! ## Writing mft records -/

/-- What a write of mft records reads of the volume. -/
structure MirroredVolume where
  mftRecordSize : UInt32
  mftmirrSize : Int
  hasMftmirr : Bool

/-- The contents of `$MFT` and `$MFTMirr`. -/
structure MirrorDisk where
  mft : Nat → UInt16
  mftmirr : Nat → UInt16

/-- A call: its arguments, with `m` for `MREF(mref)`, the number of initialised records,
whether there is memory for the copy, what is in memory behind the copy, and how the two
writes end. -/
structure MftWriteCall where
  m : Nat
  count : Int
  b : RecordWords
  initialized : Int
  malloc : Bool
  behind : RecordWords
  toMft : WriteResult
  toMftmirr : WriteResult

/-- Whether a write has returned the number of records it was asked for. -/
def wroteAll (asked : Int) : Except MftWriteError Nat → Except MftWriteError Unit
  | .ok n => if (n : Int) = asked then .ok () else .error .eio
  | .error e => .error e

def laterError (first second : Except MftWriteError Unit) : Except MftWriteError Unit :=
  match second with
  | .error e => .error e
  | .ok _ => first

section

variable (vol : MirroredVolume) (call : MftWriteCall)

def MftWriteCall.mirrored : Nat := (min (vol.mftmirrSize - call.m) call.count).toNat

def MftWriteCall.bmirr : RecordWords := fun j =>
  if j < call.mirrored vol * recordWords vol.mftRecordSize then call.b j else call.behind j

def mirrorWrite (d : MirrorDisk) (written : Except MftWriteError Nat) :
    MirrorDisk × Except MftWriteError Unit :=
  match written with
  | .error _ => (d, .ok ())
  | .ok bw =>
    if bw = 0 then (d, .ok ())
    else
      let cnt := min (call.mirrored vol) bw
      let out := attrMstPwrite vol.mftRecordSize call.toMftmirr d.mftmirr call.m cnt
        (call.bmirr vol)
      ({ d with mftmirr := out.1 }, wroteAll cnt out.2)

def writeBoth (d : MirrorDisk) : MirrorDisk × Except MftWriteError Unit :=
  let out := attrMstPwrite vol.mftRecordSize call.toMft d.mft call.m call.count.toNat call.b
  let mirrored := mirrorWrite vol call { d with mft := out.1 } out.2
  (mirrored.1, laterError (wroteAll call.count out.2) mirrored.2)

def writeMft (d : MirrorDisk) : MirrorDisk × Except MftWriteError Unit :=
  let out := attrMstPwrite vol.mftRecordSize call.toMft d.mft call.m call.count.toNat call.b
  ({ d with mft := out.1 }, wroteAll call.count out.2)

def mftRecordsWrite (d : MirrorDisk) : MirrorDisk × Except MftWriteError Unit :=
  if vol.mftmirrSize ≤ 0 ∨ call.count < 0 then (d, .error .einval)
  else if call.initialized < call.m + call.count then (d, .error .espipe)
  else if (call.m : Int) < vol.mftmirrSize then
    if !vol.hasMftmirr then (d, .error .einval)
    else if !call.malloc then (d, .error .enomem)
    else writeBoth vol call d
  else writeMft vol call d

end

def runMftWrites (vol : MirroredVolume) (calls : List MftWriteCall) (d : MirrorDisk) :
    MirrorDisk :=
  calls.foldl (fun d call => (mftRecordsWrite vol call d).1) d

/-! ## The comparison at mount -/

/-- Take back the fixups of the record at index `i` of a buffer, in place. A record that
cannot be restored stays in the buffer. -/
def unprotectAt (b : RecordWords) (i : Nat) : RecordWords := fun j =>
  if j < i * recordWords size then b j
  else (mstPostReadFixup (fun j => b (i * recordWords size + j)) size).2
    (j - i * recordWords size)

/-- The loop of `ntfs_attr_mst_pread`, from index `i` on. -/
def unprotectRecords (size : UInt32) : Nat → Nat → RecordWords → RecordWords
  | 0, _, b => b
  | count + 1, i, b => unprotectRecords size count (i + 1) (unprotectAt size b i)

/-- The buffer into which the first `count` records of an attribute have been read; `behind`
is what is in memory behind it. -/
def readBuffer (count : Nat) (disk : Nat → UInt16) (behind : RecordWords) :
    RecordWords := fun j => if j < count * recordWords size then disk j else behind j

/-- What `ntfs_device_mount` has in its buffers after the two reads. -/
def mountBuffer (vol : MirroredVolume) (disk : Nat → UInt16) (behind : RecordWords) :
    RecordWords :=
  unprotectRecords vol.mftRecordSize vol.mftmirrSize.toNat 0
    (readBuffer vol.mftRecordSize vol.mftmirrSize.toNat disk behind)

/-- `ntfs_mft_record_get_data_size`. -/
def recordDataSize (b : RecordWords) : Nat :=
  if b 0 = 0x4946 ∧ b 1 = 0x454c then (b 12).toNat + 65536 * (b 13).toNat else 0

/-- Whether `memcmp` finds no difference in the first `n` bytes. -/
def sameBytes (n : Nat) (b b' : RecordWords) : Prop := ∀ j, 2 * j < n → b j = b' j

/-- The comparison of the records at index `i` of the two buffers. -/
def sameRecord (m m2 : RecordWords) (i : Nat) : Prop :=
  sameBytes (recordDataSize fun j => m (i * recordWords size + j))
    (fun j => m (i * recordWords size + j)) (fun j => m2 (i * recordWords size + j))

end

/-! ## Equal copies are protected alike -/

/-- Two buffers have the same words below `w`. -/
def AgreeBelow (w : Nat) (b b' : RecordWords) : Prop := ∀ j < w, b j = b' j

lemma AgreeBelow.mono (h : AgreeBelow w b b') (hle : v ≤ w) : AgreeBelow v b b' :=
  fun j hj => h j (lt_of_lt_of_le hj hle)

lemma AgreeBelow.update (h : AgreeBelow w b b') (i : Nat)
    (x : UInt16) : AgreeBelow w (Function.update b i x) (Function.update b' i x) := by
  intro j hj
  by_cases hji : j = i
  · rw [hji, Function.update_self, Function.update_self]
  · rw [Function.update_of_ne hji, Function.update_of_ne hji, h j hj]

lemma protectLoop_agree (h : AgreeBelow w b b') (hend : ∀ k < count, dataPos + blockWords * k < w) :
    AgreeBelow w (protectLoop usn count usaPos dataPos b)
      (protectLoop usn count usaPos dataPos b') := by
  induction count generalizing usaPos dataPos b b' with
  | zero => exact h
  | succ count ih =>
    have hfirst : b dataPos = b' dataPos := by
      have hlt := hend 0 (Nat.succ_pos count)
      exact h dataPos hlt
    rw [protectLoop, hfirst]
    refine ih ((h.update _ _).update _ _) ?_
    intro k hk
    have hlt := hend (k + 1) (Nat.succ_lt_succ hk)
    rw [Nat.mul_succ] at hlt
    omega

section

lemma sectorEnd_lt (hk : k < size.toNat / 512) :
    blockWords - 1 + blockWords * k < recordWords size := by
  unfold blockWords recordWords
  omega

/-- A record is protected without regard to the words behind it. -/
lemma preWriteFixup_agree (hsize : 512 ≤ size.toNat) (hw : recordWords size ≤ w)
    (h : AgreeBelow w b b') (hp : mstPreWriteFixup b size = .ok p) :
    ∃ p', mstPreWriteFixup b' size = .ok p' ∧ AgreeBelow w p p' := by
  have hwords : 256 ≤ recordWords size := by
    unfold recordWords
    omega
  have hhead : ∀ j < 4, b j = b' j := fun j hj => h j (by omega)
  have h2 := (hhead 2 (by decide)).symm
  have h3 := (hhead 3 (by decide)).symm
  have hbaad : b'.isBaadRecord = b.isBaadRecord := by
    rw [RecordWords.isBaadRecord, RecordWords.isBaadRecord, hhead 0 (by decide),
      hhead 1 (by decide)]
  have hhole : b'.isHoleRecord = b.isHoleRecord := by
    rw [RecordWords.isHoleRecord, RecordWords.isHoleRecord, hhead 0 (by decide),
      hhead 1 (by decide)]
  rw [mstPreWriteFixup] at hp ⊢
  rw [hbaad, hhole, misfits_congr h2 h3, usaPos_congr h2, fixups_congr h3]
  split at hp
  · cases hp
  split at hp
  · cases hp
  next hmagic hfits =>
    rw [Bool.not_eq_true] at hfits
    obtain ⟨-, -, hofs, hcount⟩ := misfits_eq_false.mp hfits
    have husn : b'.usn = b.usn := by
      rw [RecordWords.usn, usaPos_congr h2]
      refine (h _ ?_).symm
      unfold RecordWords.usaPos
      unfold recordWords at hw
      omega
    rw [if_neg hmagic, if_neg (by rw [hfits]; exact Bool.false_ne_true), husn]
    refine ⟨_, rfl, ?_⟩
    obtain rfl := Except.ok.inj hp
    refine protectLoop_agree (h.update _ _) fun k hk => ?_
    exact lt_of_lt_of_le (sectorEnd_lt (hcount ▸ hk)) hw

lemma protectAt_agree (hsize : 512 ≤ size.toNat)
    (hw : (i + 1) * recordWords size ≤ w) (h : AgreeBelow w b b')
    (hp : protectAt size b i = .ok p) : ∃ p', protectAt size b' i = .ok p' ∧ AgreeBelow w p p' := by
  rw [Nat.succ_mul] at hw
  have hview : AgreeBelow (w - i * recordWords size)
      (fun j => b (i * recordWords size + j)) (fun j => b' (i * recordWords size + j)) :=
    fun j hj => h _ (by omega)
  unfold protectAt at hp ⊢
  cases hfix : mstPreWriteFixup (fun j => b (i * recordWords size + j)) size with
  | error e =>
    rw [hfix] at hp
    cases hp
  | ok r =>
    rw [hfix] at hp
    obtain ⟨r', hr', hagree⟩ := preWriteFixup_agree hsize (by omega) hview hfix
    rw [hr']
    refine ⟨_, rfl, fun j hj => ?_⟩
    obtain rfl := Except.ok.inj hp
    dsimp only
    by_cases hji : j < i * recordWords size
    · rw [if_pos hji, if_pos hji, h j hj]
    · rw [if_neg hji, if_neg hji]
      exact hagree _ (by omega)

lemma protectAt_before (hp : protectAt size b i = .ok p)
    (hj : j < i * recordWords size) : p j = b j := by
  unfold protectAt at hp
  split at hp
  · cases hp
  · obtain rfl := Except.ok.inj hp
    exact if_pos hj

lemma protectRecords_before {count i j : Nat} (hj : j < i * recordWords size) :
    (protectRecords size count i b).2 j = b j := by
  induction count generalizing i b with
  | zero => rfl
  | succ count ih =>
    rw [protectRecords]
    cases hat : protectAt size b i with
    | error e => rfl
    | ok p =>
      have hnext : j < (i + 1) * recordWords size := by
        rw [Nat.succ_mul]
        omega
      exact (ih hnext).trans (protectAt_before hat hj)

lemma protectRecords_le (count i : Nat) (b : RecordWords) :
    i ≤ (protectRecords size count i b).1 ∧ (protectRecords size count i b).1 ≤ i + count := by
  induction count generalizing i b with
  | zero => exact ⟨le_refl i, le_refl i⟩
  | succ count ih =>
    rw [protectRecords]
    cases protectAt size b i with
    | error e => exact ⟨le_refl i, Nat.le_add_right i _⟩
    | ok p =>
      obtain ⟨hlo, hhi⟩ := ih (i + 1) p
      dsimp only
      exact ⟨by omega, by omega⟩

/-- The first records of a copy are protected like those of the original. -/
lemma protectRecords_agree {count k i : Nat} (hsize : 512 ≤ size.toNat)
    (hk : i + k ≤ (protectRecords size count i b).1)
    (h : AgreeBelow ((i + k) * recordWords size) b b') :
    (protectRecords size k i b').1 = i + k ∧
      AgreeBelow ((i + k) * recordWords size) (protectRecords size count i b).2
        (protectRecords size k i b').2 := by
  induction k generalizing count i b b' with
  | zero =>
    refine ⟨rfl, fun j hj => ?_⟩
    exact (@protectRecords_before size b count i j hj).trans (h j hj)
  | succ k ih =>
    cases count with
    | zero =>
      rw [protectRecords] at hk
      omega
    | succ count =>
      rw [protectRecords] at hk ⊢
      rw [protectRecords]
      cases hat : protectAt size b i with
      | error e =>
        rw [hat] at hk
        dsimp only at hk
        omega
      | ok p =>
        rw [hat] at hk
        have hend : (i + 1) * recordWords size ≤ (i + (k + 1)) * recordWords size :=
          Nat.mul_le_mul_right _ (by omega)
        obtain ⟨p', hp', hagree⟩ := protectAt_agree hsize hend h hat
        rw [hp']
        have hnext : i + 1 + k = i + (k + 1) := by omega
        have hrest := @ih p p' count (i + 1) (hnext ▸ hk) (hnext ▸ hagree)
        rwa [hnext] at hrest

end

end NtfsDxe
