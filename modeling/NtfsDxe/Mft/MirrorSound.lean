import NtfsDxe.Mft.Mirror

/-! # The mirror agrees with the mft

The invariant is that the two attributes hold the same words in the mirrored records. A write
that reaches the mirror has stored there what it has stored in `$MFT`, because a copy of the
records is protected like the records themselves.
-/

namespace NtfsDxe

open WriteResult

/-- The mirrored records of the two attributes are equal, fixups included. -/
def MirrorAgrees (vol : MirroredVolume) (d : MirrorDisk) : Prop :=
  AgreeBelow (vol.mftmirrSize.toNat * recordWords vol.mftRecordSize) d.mft d.mftmirr

/-! ## One write -/

lemma storeRecords_none : storeRecords size disk m 0 p = disk := by
  funext j
  refine if_neg fun h => ?_
  rw [add_zero] at h
  omega

section

variable (result : WriteResult) (disk : Nat → UInt16) (m : Nat)

/-- Once a record is protected, the write is started. -/
lemma attrMstPwrite_prepared (hsize : size.toNat % 512 = 0)
    (hsome : 0 < (protectRecords size count 0 src).1) :
    attrMstPwrite size result disk m count src =
      (storeRecords size disk m (result.stored (protectRecords size count 0 src).1)
          (protectRecords size count 0 src).2,
        result.returned (protectRecords size count 0 src).1) := by
  have hcount : count ≠ 0 := by
    rintro rfl
    exact absurd hsome (lt_irrefl 0)
  unfold attrMstPwrite
  rw [if_neg (not_not.mpr hsize), if_neg hcount]
  exact if_neg hsome.ne'

/-- A write that is not started changes nothing. -/
lemma attrMstPwrite_cases (count : Nat) (src : RecordWords) :
    (attrMstPwrite size result disk m count src = (disk, .ok 0) ∧ count = 0) ∨
      (∃ e, attrMstPwrite size result disk m count src = (disk, .error e)) ∨
      size.toNat % 512 = 0 ∧ 0 < (protectRecords size count 0 src).1 := by
  unfold attrMstPwrite
  by_cases hsize : size.toNat % 512 ≠ 0
  · exact .inr (.inl ⟨_, if_pos hsize⟩)
  rw [if_neg hsize]
  by_cases hcount : count = 0
  · exact .inl ⟨if_pos hcount, hcount⟩
  rw [if_neg hcount]
  by_cases hnone : (protectRecords size count 0 src).1 = 0
  · exact .inr (.inl ⟨_, if_pos hnone⟩)
  · exact .inr (.inr ⟨not_not.mp hsize, Nat.pos_of_ne_zero hnone⟩)

end

lemma WriteResult.returned_eq_stored {result : WriteResult} (h : result.returned asked = .ok n) :
    result.stored asked = n := by
  cases result with
  | all => exact Except.ok.inj h
  | part k => exact Except.ok.inj h
  | failed e => cases h

lemma WriteResult.stored_of_returned_error {result : WriteResult}
    (h : result.returned asked = .error e) : result.stored asked = 0 := by
  cases result with
  | all => cases h
  | part k => cases h
  | failed e => rfl

lemma WriteResult.stored_le (result : WriteResult) (asked : Nat) : result.stored asked ≤ asked := by
  cases result with
  | all => exact le_refl asked
  | part k => exact min_le_right k asked
  | failed e => exact Nat.zero_le asked

lemma storeRecords_before (hj : j < m * recordWords size) :
    storeRecords size disk m n p j = disk j :=
  if_neg fun h => absurd hj (not_lt.mpr h.1)

/-- Two writes of equal records agree up to record `e` if they store the same number of
records, or if the shorter one reaches `e`. -/
lemma storeRecords_agree (h : AgreeBelow (e * recordWords size) disk disk')
    (hp : AgreeBelow (k * recordWords size) p p') (hk : k = n ∨ k ≤ n ∧ m + k = e) :
    AgreeBelow (e * recordWords size) (storeRecords size disk m n p)
      (storeRecords size disk' m k p') := by
  intro j hj
  have hiff : (m * recordWords size ≤ j ∧ j < (m + n) * recordWords size) ↔
      (m * recordWords size ≤ j ∧ j < (m + k) * recordWords size) := by
    rcases hk with rfl | ⟨hle, rfl⟩
    · exact Iff.rfl
    · have hmul := Nat.mul_le_mul_right (recordWords size) (Nat.add_le_add_left hle m)
      exact and_congr_right fun _ => ⟨fun _ => hj, fun hlt => lt_of_lt_of_le hlt hmul⟩
  unfold storeRecords
  by_cases hin : m * recordWords size ≤ j ∧ j < (m + k) * recordWords size
  · rw [if_pos (hiff.mpr hin), if_pos hin]
    refine hp _ ?_
    have hlt := hin.2
    rw [add_mul] at hlt
    omega
  · rw [if_neg (mt hiff.mp hin), if_neg hin]
    exact h j hj

section

variable {call : MftWriteCall}

lemma bmirr_agree :
    AgreeBelow (call.mirrored vol * recordWords vol.mftRecordSize) call.b (call.bmirr vol) :=
  fun _ hj => (if_pos hj).symm

/-- The mirror gets the records of its range that `$MFT` has got. -/
lemma mirrorWrite_agrees (h : MirrorAgrees vol d)
    (hsize : 512 ≤ vol.mftRecordSize.toNat) (hmod : vol.mftRecordSize.toNat % 512 = 0)
    (hall : call.toMftmirr = .all) (hm : (call.m : Int) < vol.mftmirrSize) (hn : 0 < n)
    (hprep : n ≤ (protectRecords vol.mftRecordSize call.count.toNat 0 call.b).1) :
    MirrorAgrees vol (mirrorWrite vol call
      ⟨storeRecords vol.mftRecordSize d.mft call.m n
        (protectRecords vol.mftRecordSize call.count.toNat 0 call.b).2, d.mftmirr⟩ (.ok n)).1 := by
  have hle := (@protectRecords_le vol.mftRecordSize call.count.toNat 0 call.b).2
  have hmir : call.mirrored vol =
      min (vol.mftmirrSize.toNat - call.m) call.count.toNat := by
    unfold MftWriteCall.mirrored
    omega
  generalize hcnt : min (call.mirrored vol) n = cnt
  have hcopy : AgreeBelow ((0 + cnt) * recordWords vol.mftRecordSize) call.b (call.bmirr vol) :=
    bmirr_agree.mono (Nat.mul_le_mul_right _ (by omega))
  have hlen : 0 + cnt ≤ (protectRecords vol.mftRecordSize call.count.toNat 0 call.b).1 := by
    omega
  obtain ⟨hdone, hsame⟩ := protectRecords_agree hsize hlen hcopy
  rw [zero_add] at hdone hsame
  have hpos : 0 < cnt := by omega
  unfold mirrorWrite
  dsimp only
  rw [if_neg hn.ne', hcnt]
  rw [attrMstPwrite_prepared _ _ _ hmod (hdone.symm ▸ hpos), hdone, hall]
  refine storeRecords_agree h hsame ?_
  change cnt = n ∨ cnt ≤ n ∧ call.m + cnt = vol.mftmirrSize.toNat
  omega

lemma mftRecordsWrite_agrees (h : MirrorAgrees vol d) (hall : call.toMftmirr = .all) :
    MirrorAgrees vol (mftRecordsWrite vol call d).1 := by
  unfold mftRecordsWrite
  split_ifs with hargs hinit hm hna hmem
  · exact h
  · exact h
  · exact h
  · exact h
  · -- a record of no words has nothing to agree on
    by_cases hwords : recordWords vol.mftRecordSize = 0
    · intro j hj
      rw [hwords] at hj
      exact absurd hj (Nat.not_lt_zero j)
    unfold writeBoth
    rcases attrMstPwrite_cases call.toMft d.mft call.m call.count.toNat call.b
      with ⟨hout, _⟩ | ⟨e, hout⟩ | ⟨hmod, hsome⟩
    · rw [hout]
      exact h
    · rw [hout]
      exact h
    · rw [attrMstPwrite_prepared _ _ _ hmod hsome]
      cases hret : call.toMft.returned
        (protectRecords vol.mftRecordSize call.count.toNat 0 call.b).1 with
      | error e =>
        rw [stored_of_returned_error hret, storeRecords_none]
        exact h
      | ok n =>
        have hstored := returned_eq_stored hret
        rw [hstored]
        rcases Nat.eq_zero_or_pos n with rfl | hn
        · rw [storeRecords_none]
          exact h
        · have hsize : 512 ≤ vol.mftRecordSize.toNat := by
            unfold recordWords at hwords
            omega
          exact mirrorWrite_agrees h hsize hmod hall hm hn
            (hstored ▸ stored_le _ _)
  · unfold writeMft
    intro j hj
    have hbefore : j < call.m * recordWords vol.mftRecordSize :=
      lt_of_lt_of_le hj (Nat.mul_le_mul_right _ (by omega))
    rcases attrMstPwrite_cases call.toMft d.mft call.m call.count.toNat call.b
      with ⟨hout, _⟩ | ⟨e, hout⟩ | ⟨hmod, hsome⟩
    · rw [hout]
      exact h j hj
    · rw [hout]
      exact h j hj
    · rw [attrMstPwrite_prepared _ _ _ hmod hsome]
      exact (storeRecords_before hbefore).trans (h j hj)

lemma runMftWrites_agrees (h : MirrorAgrees vol d) (hall : ∀ call ∈ calls, call.toMftmirr = .all) :
    MirrorAgrees vol (runMftWrites vol calls d) := by
  induction calls generalizing d with
  | nil => exact h
  | cons call calls ih =>
    refine ih (mftRecordsWrite_agrees h (hall call List.mem_cons_self)) ?_
    intro c hc
    exact hall c (List.mem_cons_of_mem call hc)

/-- The records of a call are in `$MFT`, each with its fixups. -/
structure RecordsStored (vol : MirroredVolume) (call : MftWriteCall) (d d' : MirrorDisk) :
    Prop where
  count_nonneg : 0 ≤ call.count
  prepared : (protectRecords vol.mftRecordSize call.count.toNat 0 call.b).1 = call.count.toNat
  stored : d'.mft = storeRecords vol.mftRecordSize d.mft call.m call.count.toNat
    (protectRecords vol.mftRecordSize call.count.toNat 0 call.b).2

lemma wroteAll_eq_ok (h : wroteAll asked r = .ok ()) : r = .ok asked.toNat := by
  cases r with
  | error e => cases h
  | ok n =>
    rw [wroteAll] at h
    split_ifs at h with hn
    rw [← hn, Int.toNat_natCast]

lemma laterError_eq_ok (h : laterError first second = .ok ()) : first = .ok () := by
  cases second with
  | error e => cases h
  | ok u => exact h

/-- The write to `$MFT` reports success only if all is stored. -/
lemma recordsStored_of_wroteAll (hcount : 0 ≤ call.count)
    (hmft : d'.mft = (attrMstPwrite vol.mftRecordSize call.toMft d.mft call.m call.count.toNat
      call.b).1)
    (h : wroteAll call.count (attrMstPwrite vol.mftRecordSize call.toMft d.mft call.m
      call.count.toNat call.b).2 = .ok ()) : RecordsStored vol call d d' := by
  have hret := wroteAll_eq_ok h
  rcases attrMstPwrite_cases call.toMft d.mft call.m call.count.toNat call.b
    with ⟨hout, hzero⟩ | ⟨e, hout⟩ | ⟨hmod, hsome⟩
  · refine ⟨hcount, by rw [hzero]; rfl, ?_⟩
    rw [hmft, hout, hzero, storeRecords_none]
  · rw [hout] at hret
    cases hret
  · rw [attrMstPwrite_prepared _ _ _ hmod hsome] at hret hmft
    have hstored := returned_eq_stored hret
    have hle := stored_le call.toMft
      (protectRecords vol.mftRecordSize call.count.toNat 0 call.b).1
    have hcnt := (@protectRecords_le vol.mftRecordSize call.count.toNat 0 call.b).2
    refine ⟨hcount, by omega, ?_⟩
    rw [hmft, hstored]

lemma mirrorWrite_mft : (mirrorWrite vol call d written).1.mft = d.mft := by
  unfold mirrorWrite
  cases written with
  | error e => rfl
  | ok n =>
    dsimp only
    split_ifs <;> rfl

lemma mftRecordsWrite_stored (h : (mftRecordsWrite vol call d).2 = .ok ()) :
    RecordsStored vol call d (mftRecordsWrite vol call d).1 := by
  unfold mftRecordsWrite at h ⊢
  split_ifs at h ⊢ with hargs hinit hm hna hmem
  · exact recordsStored_of_wroteAll (by omega) mirrorWrite_mft (laterError_eq_ok h)
  · exact recordsStored_of_wroteAll (by omega) rfl h

end

/-! ## The comparison at mount -/

section

variable {size : UInt32} {b b' : RecordWords}

lemma checkLoop_agree (h : AgreeBelow w b b') (hend : ∀ k < count, dataPos + blockWords * k < w) :
    checkLoop usn count dataPos b = checkLoop usn count dataPos b' := by
  rw [Bool.eq_iff_iff, checkLoop_eq_true, checkLoop_eq_true]
  refine forall₂_congr fun k hk => ?_
  rw [h _ (hend k hk)]

lemma restoreLoop_agree (h : AgreeBelow w b b') (husa : usaPos + count < w) :
    AgreeBelow w (restoreLoop count usaPos dataPos b) (restoreLoop count usaPos dataPos b') := by
  induction count generalizing usaPos dataPos b b' with
  | zero => exact h
  | succ count ih =>
    rw [restoreLoop, h (usaPos + 1) (by omega)]
    exact ih (h.update _ _) (by omega)

/-- The update sequence array of the record at index `i` ends inside the record. -/
def usaInside (size : UInt32) (b : RecordWords) (i : Nat) : Prop :=
  RecordWords.usaPos (fun j => b (i * recordWords size + j)) +
    (RecordWords.fixups fun j => b (i * recordWords size + j)).toNat < recordWords size

/-- An array that passes the checks reaches at most one word behind its record. -/
lemma usa_le_recordWords (h : b.misfits size = false) :
    b.usaPos + b.fixups.toNat ≤ recordWords size := by
  have hofs := (misfits_eq_false.mp h).2.2.1
  unfold RecordWords.usaPos recordWords
  omega

variable (hsize : 512 ≤ size.toNat)
include hsize

lemma recordWords_ge : 256 ≤ recordWords size := by
  unfold recordWords
  omega

/-- The fixups of a record are taken back without regard to the words behind its array. -/
lemma postReadFixup_agree (hw : recordWords size ≤ w) (h : AgreeBelow w b b')
    (husa : b.misfits size = false → b.usaPos + b.fixups.toNat < w) :
    AgreeBelow w (mstPostReadFixup b size).2 (mstPostReadFixup b' size).2 := by
  have hwords := recordWords_ge hsize
  have h2 : b' 2 = b 2 := (h 2 (by omega)).symm
  have h3 : b' 3 = b 3 := (h 3 (by omega)).symm
  rw [mstPostReadFixup, mstPostReadFixup, misfits_congr h2 h3, usaPos_congr h2, fixups_congr h3]
  by_cases hfits : b.misfits size
  · rw [if_pos hfits, if_pos hfits]
    exact h
  · rw [if_neg hfits, if_neg hfits]
    rw [Bool.not_eq_true] at hfits
    have hin := husa hfits
    have husn : b'.usn = b.usn := by
      rw [RecordWords.usn, usaPos_congr h2]
      exact (h _ (by omega)).symm
    have hcheck : checkLoop b.usn b.fixups.toNat (blockWords - 1) b' =
        checkLoop b.usn b.fixups.toNat (blockWords - 1) b := by
      refine (checkLoop_agree h fun k hk => ?_).symm
      exact lt_of_lt_of_le (sectorEnd_lt ((misfits_eq_false.mp hfits).2.2.2 ▸ hk)) hw
    rw [husn, hcheck]
    by_cases hok : checkLoop b.usn b.fixups.toNat (blockWords - 1) b = true
    · rw [if_pos hok, if_pos hok]
      exact restoreLoop_agree h hin
    · rw [if_neg hok, if_neg hok]
      exact (h.update _ _).update _ _

/-- Taking back fixups changes words of the record only. -/
lemma postReadFixup_behind (hj : recordWords size ≤ j) : (mstPostReadFixup b size).2 j = b j := by
  have hwords := recordWords_ge hsize
  unfold mstPostReadFixup
  split_ifs with hfits hok
  · rfl
  · rw [Bool.not_eq_true] at hfits
    refine restoreLoop_other fun k hk => ?_
    have hlt := sectorEnd_lt ((misfits_eq_false.mp hfits).2.2.2 ▸ hk)
    omega
  · change Function.update (Function.update b 0 _) 1 _ j = b j
    rw [Function.update_of_ne (by omega), Function.update_of_ne (by omega)]

lemma unprotectAt_after (hj : (i + 1) * recordWords size ≤ j) : unprotectAt size b i j = b j := by
  rw [Nat.succ_mul] at hj
  unfold unprotectAt
  rw [if_neg (by omega), postReadFixup_behind hsize (by omega)]
  exact congrArg b (by omega)

lemma unprotectAt_agree (hi : i < e) (hlast : i + 1 = e → usaInside size b i)
    (h : AgreeBelow (e * recordWords size) b b') :
    AgreeBelow (e * recordWords size) (unprotectAt size b i) (unprotectAt size b' i) := by
  have hend := Nat.mul_le_mul_right (recordWords size) (Nat.succ_le_of_lt hi)
  rw [Nat.succ_mul] at hend
  have hview : AgreeBelow (e * recordWords size - i * recordWords size)
      (fun j => b (i * recordWords size + j)) (fun j => b' (i * recordWords size + j)) :=
    fun j hj => h _ (by omega)
  have hafter := postReadFixup_agree hsize (by omega) hview fun hfits => ?_
  · intro j hj
    unfold unprotectAt
    by_cases hji : j < i * recordWords size
    · rw [if_pos hji, if_pos hji]
      exact h j hj
    · rw [if_neg hji, if_neg hji]
      exact hafter _ (by omega)
  · -- the array of a record that is not the last ends in the next record at most
    rcases Nat.eq_or_lt_of_le (Nat.succ_le_of_lt hi) with heq | hlt
    · exact lt_of_lt_of_le (hlast heq) (by omega)
    · have hnext := Nat.mul_le_mul_right (recordWords size) (Nat.succ_le_of_lt hlt)
      rw [Nat.succ_mul, Nat.succ_mul] at hnext
      have hle := usa_le_recordWords hfits
      have hwords := recordWords_ge hsize
      omega

/-- Unprotecting a record leaves the arrays of the later ones where they are. -/
lemma usaInside_unprotectAt (hik : i < k) (h : usaInside size b k) :
    usaInside size (unprotectAt size b i) k := by
  have hend := Nat.mul_le_mul_right (recordWords size) (Nat.succ_le_of_lt hik)
  have hword : ∀ j, unprotectAt size b i (k * recordWords size + j) =
      b (k * recordWords size + j) := fun j =>
    unprotectAt_after hsize (hend.trans (Nat.le_add_right _ j))
  unfold usaInside
  rw [funext hword]
  exact h

/-- Two equal buffers are still equal after their records have been unprotected. -/
lemma unprotectRecords_agree (hlast : 0 < count → usaInside size b (i + count - 1))
    (h : AgreeBelow ((i + count) * recordWords size) b b') :
    AgreeBelow ((i + count) * recordWords size) (unprotectRecords size count i b)
      (unprotectRecords size count i b') := by
  induction count generalizing i b b' with
  | zero => exact h
  | succ count ih =>
    have hinside := hlast (Nat.succ_pos count)
    have hnext : i + (count + 1) = i + 1 + count := by omega
    rw [hnext] at hinside h ⊢
    refine ih ?_ (unprotectAt_agree hsize (by omega) ?_ h)
    · intro hcount
      exact usaInside_unprotectAt hsize (by omega) hinside
    · intro heq
      rwa [show i = i + 1 + count - 1 by omega]

/-- Reading a record keeps its array where it is. -/
lemma usaInside_readBuffer (hi : i < count)
    (h : usaInside size disk i) : usaInside size (readBuffer size count disk behind) i := by
  have hend := Nat.mul_le_mul_right (recordWords size) (Nat.succ_le_of_lt hi)
  rw [Nat.succ_mul] at hend
  have hwords := recordWords_ge hsize
  have hword : ∀ j < 256, readBuffer size count disk behind (i * recordWords size + j) =
      disk (i * recordWords size + j) := fun j hj => if_pos (by omega)
  have hpos := @usaPos_congr (fun j => disk (i * recordWords size + j))
    (fun j => readBuffer size count disk behind (i * recordWords size + j)) (hword 2 (by decide))
  have hfix := @fixups_congr (fun j => disk (i * recordWords size + j))
    (fun j => readBuffer size count disk behind (i * recordWords size + j)) (hword 3 (by decide))
  unfold usaInside
  rw [hpos, hfix]
  exact h

end

/-- Equal attributes pass the comparison at mount. Without the two bounds the last record is
compared with what is in memory behind the buffers. -/
lemma mount_sameRecord (h : MirrorAgrees vol d) (hmod : vol.mftRecordSize.toNat % 512 = 0)
    (hlast : usaInside vol.mftRecordSize d.mft (vol.mftmirrSize.toNat - 1))
    (hdata : i * vol.mftRecordSize.toNat + recordDataSize
      (fun j => mountBuffer vol d.mft behind (i * recordWords vol.mftRecordSize + j)) ≤
      vol.mftmirrSize.toNat * vol.mftRecordSize.toNat) :
    sameRecord vol.mftRecordSize (mountBuffer vol d.mft behind)
      (mountBuffer vol d.mftmirr behind2) i := by
  have hwords : vol.mftRecordSize.toNat = 2 * recordWords vol.mftRecordSize := by
    unfold recordWords
    omega
  have hbuffers : AgreeBelow ((0 + vol.mftmirrSize.toNat) * recordWords vol.mftRecordSize)
      (readBuffer vol.mftRecordSize vol.mftmirrSize.toNat d.mft behind)
      (readBuffer vol.mftRecordSize vol.mftmirrSize.toNat d.mftmirr behind2) := by
    intro j hj
    rw [zero_add] at hj
    unfold readBuffer
    rw [if_pos hj, if_pos hj]
    exact h j hj
  have hsize : 512 ≤ vol.mftRecordSize.toNat := by
    unfold usaInside at hlast
    omega
  have hagree := unprotectRecords_agree hsize (fun _ => ?_) hbuffers
  · intro j hj
    refine hagree _ ?_
    rw [hwords, ← mul_assoc, ← mul_assoc, mul_comm i 2, mul_comm _ 2,
      mul_assoc, mul_assoc] at hdata
    rw [zero_add]
    omega
  · rw [zero_add]
    exact usaInside_readBuffer hsize (by omega) hlast

def oneMirrored : MirroredVolume where
  mftRecordSize := 512
  mftmirrSize := 1
  hasMftmirr := true

/-- A record of one sector whose array is behind the header. -/
def sectorRecord (bytesInUse : UInt16) : RecordWords := fun j =>
  if j = 0 then 0x4946 else if j = 1 then 0x454c else if j = 2 then 0x30
  else if j = 3 then 2 else if j = 12 then bytesInUse else if j = 13 then 0 else 7

/-- Two records for a volume of which `$MFTMirr` has the first. -/
def sectorCall (bytesInUse : UInt16) (toMft : WriteResult) : MftWriteCall where
  m := 0
  count := 2
  b := fun j => sectorRecord bytesInUse (j % 256)
  initialized := 64
  malloc := true
  behind := fun _ => 0
  toMft := toMft
  toMftmirr := .all

def noRecords : MirrorDisk := ⟨fun _ => 0, fun _ => 0⟩

/-- All records are stored, and then the first one only. -/
def straddlingCalls : List MftWriteCall := [sectorCall 512 .all, sectorCall 512 (.part 1)]

end NtfsDxe
