import NtfsDxe.Driver.EntryPoints
import NtfsDxe.Core.Machine
import NtfsDxe.Foundation.Calendar

/-! # The information about a file

A file is described by `NtfsReadDirectory` when its entry is read from its
directory, and by `GetFileInfo` when a handle on it is asked. Both fill an
`EFI_FILE_INFO`, from different fields of the inode.
-/

namespace NtfsDxe

open Foundation.Calendar DateTime

/-! ## Times -/

def leapsThruEndOf (y : Int) : Int := y.tdiv 4 - y.tdiv 100 + y.tdiv 400

def isleap (y : Int) : Bool := y.tmod 4 = 0 && (y.tmod 100 ≠ 0 || y.tmod 400 = 0)

def yearLengths (leap : Bool) : Int := if leap then 366 else 365

def monLengths (leap : Bool) : List Int :=
  if leap then [31, 29, 31, 30, 31, 30, 31, 31, 30, 31, 30, 31]
  else [31, 28, 31, 30, 31, 30, 31, 31, 30, 31, 30, 31]

/-- The loop of `fsw_efi_decode_time` over the years. -/
def yearLoop : Nat → Int → Int → Option (Int × Int)
  | 0, _, _ => none
  | fuel + 1, y, days =>
    if days < 0 ∨ yearLengths (isleap y) ≤ days then
      let newy := y + days.tdiv 365
      let newy := if days < 0 then newy - 1 else newy
      yearLoop fuel newy
        (days - ((newy - y) * 365 + leapsThruEndOf (newy - 1) - leapsThruEndOf (y - 1)))
    else some (y, days)

/-- The loop over the months; there is no result if the table ends. -/
def monthLoop (days : Int) : List Int → Nat → Option (Nat × Int)
  | [], _ => none
  | length :: lengths, month =>
    if length ≤ days then monthLoop (days - length) lengths (month + 1) else some (month, days)

/-- `fsw_efi_decode_time`. Three rounds of the first loop are enough. -/
def fswEfiDecodeTime (unixTime : UInt32) : Option DateTime :=
  let rem := unixTime.toNat % 86400
  (yearLoop 3 1970 (unixTime.toNat / 86400 : Nat)).bind fun (y, days) =>
    (monthLoop days (monLengths (isleap y)) 0).map fun (month, days) =>
      { year := y.toNat, month := month + 1, day := days.toNat + 1
        hour := rem / 3600, minute := rem % 3600 / 60, second := rem % 3600 % 60 }

def ntfsTimeOffset : Int := (369 * 365 + 89) * 24 * 3600 * 10000000

def ntfsToEfitime (t : Int64) : Option DateTime :=
  fswEfiDecodeTime (UInt32.ofInt ((s64 (t.toInt - ntfsTimeOffset)).tdiv 10000000))

/-! ### The calendar -/

lemma isleap_natCast (y : Nat) : isleap y = decide (IsLeap y) := by
  have h4 : (y : Int).tmod 4 = (y % 4 : Nat) := rfl
  have h100 : (y : Int).tmod 100 = (y % 100 : Nat) := rfl
  have h400 : (y : Int).tmod 400 = (y % 400 : Nat) := rfl
  rw [Bool.eq_iff_iff, decide_eq_true_iff, isleap]
  unfold IsLeap
  simp
  omega

lemma yearLengths_natCast (y : Nat) : yearLengths (isleap y) = yearLength y := by
  rw [isleap_natCast, yearLengths, yearLength]
  by_cases hleap : IsLeap y
  · simp [hleap]
  · simp [hleap]

lemma monLengths_natCast (y : Nat) :
    monLengths (isleap y) = (monthLengths y).map (Nat.cast : Nat → Int) := by
  rw [isleap_natCast, monLengths, monthLengths]
  by_cases hleap : IsLeap y
  · simp [hleap]
  · simp [hleap]

/-- Going from one year to another the code adds up the days between them. -/
lemma daysBeforeYear_sub (y z : Nat) :
    ((z : Int) - y) * 365 + leapsThruEndOf (z + 1 - 1) - leapsThruEndOf (y + 1 - 1) =
      daysBeforeYear (z + 1) - daysBeforeYear (y + 1) := by
  have hy := daysBeforeYear_succ y
  have hz := daysBeforeYear_succ z
  have hdiv : ∀ x : Nat, leapsThruEndOf x = (x / 4 : Nat) - (x / 100 : Nat) + (x / 400 : Nat) :=
    fun x => rfl
  rw [Int.add_sub_cancel, Int.add_sub_cancel, hdiv, hdiv]
  omega

lemma yearLoop_stop {y : Nat} {days : Int} (hnonneg : 0 ≤ days) (hlt : days < yearLength y) :
    ∃ day : Nat, yearLoop (fuel + 1) y days = some ((y : Int), (day : Int)) ∧
      day < yearLength y ∧ (day : Int) = days := by
  refine ⟨days.toNat, ?_, by omega, by omega⟩
  rw [yearLoop, yearLengths_natCast, if_neg (by omega), Int.toNat_of_nonneg hnonneg]

lemma yearLoop_forward (fuel : Nat) {y days : Nat} (hdays : yearLength (y + 1) ≤ days) :
    yearLoop (fuel + 1) (y + 1 : Nat) days =
      yearLoop fuel (y + days / 365 + 1 : Nat)
        (days + daysBeforeYear (y + 1) - daysBeforeYear (y + days / 365 + 1)) := by
  have hquot : (days : Int).tdiv 365 = (days / 365 : Nat) := rfl
  have hsub := daysBeforeYear_sub y (y + days / 365)
  have hnewy : ((y + 1 : Nat) : Int) + (days / 365 : Nat) = (y + days / 365 : Nat) + 1 := by omega
  rw [yearLoop, yearLengths_natCast, if_pos (by omega), hquot]
  dsimp only
  have hold : ((y + 1 : Nat) : Int) = (y : Int) + 1 := Int.natCast_add y 1
  rw [if_neg (by omega), hnewy, hold, Int.add_sub_add_right]
  congr 1
  omega

/-- From a day just before the year the loop goes to the year before. -/
lemma yearLoop_back (fuel : Nat) {y : Nat} {days : Int} (hneg : days < 0) (hsmall : -365 < days) :
    yearLoop (fuel + 1) (y + 2 : Nat) days =
      yearLoop fuel (y + 1 : Nat) (days + yearLength (y + 1)) := by
  have hquot : days.tdiv 365 = 0 := by
    have hpos : (-days).tdiv 365 = 0 := Int.tdiv_eq_zero_of_lt (by omega) (by omega)
    rwa [Int.neg_tdiv, neg_eq_zero] at hpos
  have hsub := daysBeforeYear_sub (y + 1) y
  have hyear : daysBeforeYear (y + 1 + 1) = daysBeforeYear (y + 1) + yearLength (y + 1) := rfl
  have hnewy : ((y + 2 : Nat) : Int) + 0 - 1 = (y : Int) + 1 := by omega
  have hold : ((y + 2 : Nat) : Int) = ((y + 1 : Nat) : Int) + 1 := by omega
  rw [yearLoop, if_pos (.inl hneg), hquot]
  dsimp only
  rw [if_pos hneg, hnewy, hold, Int.add_sub_add_right]
  congr 1
  omega

lemma daysBeforeYear_1970 : daysBeforeYear 1970 = 719528 := by
  have hsucc := daysBeforeYear_succ 1969
  norm_num at hsucc
  omega

/-- For every 32-bit time the loop ends, with the year and the day in it. -/
lemma yearLoop_spec {days : Nat} (hdays : days ≤ 49710) :
    ∃ year day : Nat, yearLoop 3 1970 days = some ((year : Int), (day : Int)) ∧
      day < yearLength year ∧ daysBeforeYear 1970 + days = daysBeforeYear year + day := by
  by_cases hfirst : days < yearLength 1970
  · obtain ⟨day, hstop, hday, heq⟩ := @yearLoop_stop 2 1970 days (by omega) (by omega)
    exact ⟨1970, day, hstop, hday, by omega⟩
  · have hforward := @yearLoop_forward 2 1969 days (not_lt.mp hfirst)
    have hstart := daysBeforeYear_1970
    have hnext := daysBeforeYear_succ (1969 + days / 365)
    obtain ⟨k, hk⟩ : ∃ k, days / 365 = k := ⟨_, rfl⟩
    rw [hk] at hforward hnext
    have hleaps : (1969 + k) / 100 ≤ 21 ∧ 492 ≤ (1969 + k) / 4 := by omega
    by_cases hneg : days + daysBeforeYear 1970 < daysBeforeYear (1969 + k + 1)
    · -- The leap years in between make one year too many.
      obtain ⟨y, hy⟩ : ∃ y, 1969 + k = y + 1 := ⟨1968 + k, by omega⟩
      have hyear : daysBeforeYear (y + 2) = daysBeforeYear (y + 1) + yearLength (y + 1) := rfl
      rw [hy] at hforward hneg hnext hleaps
      change daysBeforeYear (y + 2) + (y + 1) / 100 = _ at hnext
      change _ < daysBeforeYear (y + 2) at hneg
      have hlong := le_yearLength (y + 1)
      have hback := @yearLoop_back 1 y (days + daysBeforeYear 1970 - daysBeforeYear (y + 2))
        (by omega) (by omega)
      obtain ⟨day, hstop, hday, heq⟩ := @yearLoop_stop 0 (y + 1)
        (days + daysBeforeYear 1970 - daysBeforeYear (y + 2) + yearLength (y + 1))
        (by omega) (by omega)
      exact ⟨y + 1, day, hforward.trans (hback.trans hstop), hday, by omega⟩
    · have hlong := le_yearLength (1969 + k + 1)
      obtain ⟨day, hstop, hday, heq⟩ := @yearLoop_stop 1 (1969 + k + 1)
        (days + daysBeforeYear 1970 - daysBeforeYear (1969 + k + 1)) (by omega) (by omega)
      exact ⟨1969 + k + 1, day, hforward.trans hstop, hday, by omega⟩

lemma monthLoop_spec {lengths : List Nat} (hdays : days < lengths.sum) (month : Nat) :
    ∃ i day : Nat, monthLoop days (lengths.map (Nat.cast : Nat → Int)) month =
        some (month + i, (day : Int)) ∧
      (∃ length, lengths[i]? = some length ∧ day < length) ∧
      days = (lengths.take i).sum + day := by
  induction lengths generalizing days month with
  | nil => exact absurd hdays (Nat.not_lt_zero days)
  | cons length lengths ih =>
    rw [List.map_cons, monthLoop]
    by_cases hlater : length ≤ days
    · rw [List.sum_cons] at hdays
      obtain ⟨i, day, hrun, hlength, hsum⟩ := @ih (days - length) (by omega) (month + 1)
      rw [Int.ofNat_sub hlater] at hrun
      rw [if_pos (Int.ofNat_le.mpr hlater), hrun]
      refine ⟨i + 1, day, ?_, hlength, ?_⟩
      · rw [add_assoc, add_comm 1]
      · rw [List.take_succ_cons, List.sum_cons]
        omega
    · rw [if_neg (fun h => hlater (Int.ofNat_le.mp h))]
      exact ⟨0, days, rfl, ⟨length, rfl, not_le.mp hlater⟩, (zero_add _).symm⟩

/-- Every 32-bit time is decoded to the date and time of day it stands for. -/
lemma fswEfiDecodeTime_spec :
    ∃ d, fswEfiDecodeTime unixTime = some d ∧ d.Valid ∧
      d.seconds = daysBeforeYear 1970 * 86400 + unixTime.toNat := by
  have hlt := unixTime.toNat_lt
  obtain ⟨year, dayOfYear, hyear, hin, hdays⟩ := @yearLoop_spec (unixTime.toNat / 86400) (by omega)
  rw [← monthLengths_sum] at hin
  obtain ⟨i, day, hmonth, ⟨length, hlength, hday⟩, hsum⟩ := monthLoop_spec hin 0
  rw [zero_add] at hmonth
  refine ⟨{ year := year, month := i + 1, day := day + 1, hour := unixTime.toNat % 86400 / 3600,
            minute := unixTime.toNat % 86400 % 3600 / 60,
            second := unixTime.toNat % 86400 % 3600 % 60 }, ?_, ?_, ?_⟩
  · rw [fswEfiDecodeTime]
    dsimp only
    rw [hyear, Option.bind_some, monLengths_natCast, hmonth, Option.map_some, Int.toNat_natCast,
      Int.toNat_natCast]
  · have hhour : unixTime.toNat % 86400 / 3600 < 24 := by omega
    have hminute : unixTime.toNat % 86400 % 3600 / 60 < 60 := by omega
    exact ⟨Nat.le_add_left _ _, Nat.le_add_left _ _, ⟨length, hlength, hday⟩, hhour, hminute,
      Nat.mod_lt _ (by decide)⟩
  · rw [seconds, dayNumber]
    dsimp only
    rw [Nat.add_sub_cancel]
    omega

/-- The time from which `fsw_efi_decode_time` counts. -/
def unixEpoch : DateTime := ⟨1970, 1, 1, 0, 0, 0⟩

/-- `fsw_efi_decode_time` ends for every number of seconds, with the date and time of day
that many seconds behind the epoch. -/
theorem fswEfiDecodeTime_date (unixTime : UInt32) :
    ∃ d, fswEfiDecodeTime unixTime = some d ∧ d.Valid ∧
      d.seconds = unixEpoch.seconds + unixTime.toNat := by
  rw [unixEpoch, seconds_newYear]
  exact fswEfiDecodeTime_spec

/-! ## Inodes -/

/-- What an mft record says about the unnamed data attribute: the sizes of a
non-resident one, the length of the value of a resident one, whether it is compressed
or sparse, and whether its flags are accepted by `ntfs_attr_open`. -/
structure DataRecord where
  nonResident : Bool
  packed : Bool
  dataSize : UInt64
  allocatedSize : UInt64
  compressedSize : UInt64
  valueLength : UInt32
  opens : Bool
  deriving DecidableEq

/-- What an mft record says about a file: its number, whether it has the flag of a
directory, the standard information and the data attribute. -/
structure FileRecord where
  mftNo : Nat
  isDirectory : Bool
  fileAttributes : UInt32
  creationTime : Int64
  lastDataChangeTime : Int64
  lastAccessTime : Int64
  data : Option DataRecord

/-- The fields of `ntfs_inode` that are shown. -/
structure InodeFields where
  mftNo : Nat
  isDirectory : Bool
  flags : UInt32
  dataSize : UInt64
  allocatedSize : UInt64
  creationTime : Int64
  lastDataChangeTime : Int64
  lastAccessTime : Int64

def DataRecord.size (a : DataRecord) : UInt64 :=
  if a.nonResident then a.dataSize else a.valueLength.toUInt64

def DataRecord.allocated (a : DataRecord) : UInt64 :=
  if a.nonResident then if a.packed then a.compressedSize else a.allocatedSize
  else (a.valueLength.toUInt64 + 7) &&& ~~~7

section

variable (record : FileRecord)

/-- `ntfs_inode_real_open`. Without a data attribute both sizes are 0. -/
def inodeRealOpen : InodeFields where
  mftNo := record.mftNo
  isDirectory := record.isDirectory
  flags := record.fileAttributes
  dataSize := (record.data.map DataRecord.size).getD 0
  allocatedSize := (record.data.map DataRecord.allocated).getD 0
  creationTime := record.creationTime
  lastDataChangeTime := record.lastDataChangeTime
  lastAccessTime := record.lastAccessTime

/-- `ntfs_attr_open` for the unnamed data attribute: its `data_size`. -/
def dataAttrOpen : Option UInt64 :=
  (record.data.filter DataRecord.opens).map DataRecord.size

/-! ## The two views -/

structure EfiFileInfo where
  size : Nat
  fileSize : UInt64
  physicalSize : UInt64
  createTime : Option DateTime
  lastAccessTime : Option DateTime
  modificationTime : Option DateTime
  attributes : UInt64
  fileName : List UInt16
  deriving DecidableEq

/-- What is returned for a buffer: the size that is needed, or the information. -/
inductive InfoResult where
  | tooSmall (size : Nat)
  | info (i : EfiFileInfo)
  deriving DecidableEq

def efiFileHidden : UInt64 := 0x02
def efiFileSystem : UInt64 := 0x04
def efiFileArchive : UInt64 := 0x20

def fileAttrReadonly : UInt32 := 0x00000001
def fileAttrHidden : UInt32 := 0x00000002
def fileAttrSystem : UInt32 := 0x00000004
def fileAttrArchive : UInt32 := 0x00000020

/-- `MFT_RECORD_IS_DIRECTORY`. -/
def recordDirectoryFlag : UInt32 := 0x0002

def sizeOfEfiFileInfo : Nat := 80

def bitsIf (condition : Bool) (bits : UInt64) : UInt64 := if condition then bits else 0

def asciiStrToUnicodeStr (name : List UInt8) : List UInt16 := name.map UInt8.toUInt16

/-- The attributes that `NtfsReadDirectory` returns. The flag of mft records is looked
for among the attributes of the file. -/
def readAttributes (inode : InodeFields) : UInt64 :=
  bitsIf (inode.mftNo < fileFirstUser) (efiFileSystem ||| efiFileReadOnly) |||
    bitsIf (inode.flags &&& recordDirectoryFlag != 0) (efiFileDirectory ||| efiFileReadOnly) |||
    bitsIf (inode.flags &&& fileAttrReadonly != 0) efiFileReadOnly |||
    bitsIf (inode.flags &&& fileAttrHidden != 0) efiFileHidden |||
    bitsIf (inode.flags &&& fileAttrSystem != 0) efiFileSystem |||
    bitsIf (inode.flags &&& fileAttrArchive != 0) efiFileArchive

/-- `NtfsReadDirectory`, for an entry with this name. The data attribute is used
without looking whether it could be opened. -/
def readEntryInfo (name : List UInt8) (bufferSize : Nat) : Except Failure InfoResult :=
  let requiredSize := sizeofEfiFileInfo + (name.length + 1) * 2
  if bufferSize < requiredSize then .ok (.tooSmall requiredSize)
  else
    let inode := inodeRealOpen record
    match dataAttrOpen record with
    | none => .error .outOfBounds
    | some dataSize =>
      .ok (.info
        { size := requiredSize, fileSize := dataSize, physicalSize := inode.dataSize
          createTime := ntfsToEfitime inode.creationTime
          lastAccessTime := ntfsToEfitime inode.lastAccessTime
          modificationTime := ntfsToEfitime inode.lastDataChangeTime
          attributes := readAttributes inode
          fileName := asciiStrToUnicodeStr name })

/-- A name without a backslash before it. -/
def skipBackslash : List UInt16 → List UInt16
  | [] => []
  | c :: name => if c = 92 then name else c :: name

/-- The time that `GetFileInfo` decodes: the NTFS time cut to 32 bits. -/
def rawEfitime (t : Int64) : Option DateTime := fswEfiDecodeTime (UInt32.ofInt t.toInt)

/-- `GetFileInfo`, where `rName` is the last component of the handle's path. The
name is copied without a backslash before it. -/
def getFileInfo (rName : List UInt8) (bufferSize : Nat) : InfoResult :=
  let inode := inodeRealOpen record
  let requiredSize :=
    if inode.mftNo = fileRoot then sizeOfEfiFileInfo + 2
    else sizeOfEfiFileInfo + (rName.length + 1) * 2
  if bufferSize < requiredSize then .tooSmall requiredSize
  else if inode.mftNo = fileRoot then
    .info
      { size := requiredSize, fileSize := 0, physicalSize := 0
        createTime := none, lastAccessTime := none, modificationTime := none
        attributes := efiFileReadOnly ||| efiFileDirectory, fileName := [] }
  else
    .info
      { size := requiredSize, fileSize := inode.dataSize, physicalSize := inode.allocatedSize
        createTime := rawEfitime inode.creationTime
        lastAccessTime := rawEfitime inode.lastAccessTime
        modificationTime := rawEfitime inode.lastDataChangeTime
        attributes := bitsIf inode.isDirectory efiFileDirectory
        fileName := skipBackslash (asciiStrToUnicodeStr rName) }

/-! ## When the views agree -/

/-- The time in seconds of the NTFS time, counted from the beginning of 1601, is that of
the date. -/
def CalendarForm (t : Int64) (d : Option DateTime) : Prop :=
  ∃ date, d = some date ∧ date.Valid ∧
    (date.seconds : Int) = daysBeforeYear 1601 * 86400 + t.toInt / 10000000

/-- Two descriptions of a file agree, and their times are those of the record. -/
structure SameView (record : FileRecord) (a b : EfiFileInfo) : Prop where
  fileSize : a.fileSize = b.fileSize
  physicalSize : a.physicalSize = b.physicalSize
  directory : a.attributes &&& efiFileDirectory = b.attributes &&& efiFileDirectory
  createTime : a.createTime = b.createTime
  lastAccessTime : a.lastAccessTime = b.lastAccessTime
  modificationTime : a.modificationTime = b.modificationTime
  creation : CalendarForm record.creationTime a.createTime
  lastAccess : CalendarForm record.lastAccessTime a.lastAccessTime
  modification : CalendarForm record.lastDataChangeTime a.modificationTime

/-- With buffers that are large enough the two views of a file agree. -/
def ViewsAgree (name rName : List UInt8) : Prop :=
  ∀ n m, sizeofEfiFileInfo + (name.length + 1) * 2 ≤ n →
    sizeOfEfiFileInfo + (rName.length + 1) * 2 ≤ m →
    ∃ a b, readEntryInfo record name n = .ok (.info a) ∧
      getFileInfo record rName m = .info b ∧ SameView record a b

end

/-- The low 32 bits of an NTFS time are its seconds since the beginning of 1970. -/
def TimeMatches (t : Int64) : Prop :=
  t.toInt % 4294967296 = (t.toInt - ntfsTimeOffset) / 10000000

instance (t : Int64) : Decidable (TimeMatches t) := inferInstanceAs (Decidable (_ = _))

lemma toNat_ofInt_uint32 : ((UInt32.ofInt x).toNat : Int) = x % 4294967296 := by
  change (((x % 4294967296).toNat % 4294967296 : Nat) : Int) = _
  omega

lemma fswEfiDecodeTime_injective (heq : fswEfiDecodeTime u = fswEfiDecodeTime v) : u = v := by
  obtain ⟨d, hd, _, hu⟩ := fswEfiDecodeTime_spec
  obtain ⟨d', hd', _, hv⟩ := fswEfiDecodeTime_spec
  rw [hd, hd'] at heq
  cases heq
  apply UInt32.toNat_inj.mp
  omega

lemma calendarForm_decode_iff (t : Int64) :
    CalendarForm t (fswEfiDecodeTime u) ↔
      (u.toNat : Int) = (t.toInt - ntfsTimeOffset) / 10000000 := by
  obtain ⟨d, hd, hvalid, hseconds⟩ := fswEfiDecodeTime_spec
  have hepoch : daysBeforeYear 1601 = 584754 := by
    have hsucc := daysBeforeYear_succ 1600
    norm_num at hsucc
    omega
  have hunix := daysBeforeYear_1970
  have hoffset : (t.toInt - ntfsTimeOffset) / 10000000 =
      t.toInt / 10000000 - 11644473600 := by
    unfold ntfsTimeOffset
    omega
  rw [hd]
  constructor
  · rintro ⟨date, hdate, _, hsame⟩
    cases hdate
    omega
  · intro hsame
    exact ⟨d, rfl, hvalid, by omega⟩

/-- A time is shown alike by both views, and as that of the record, exactly when its
low 32 bits are its seconds since 1970. -/
lemma timeMatches_iff :
    ntfsToEfitime t = rawEfitime t ∧ CalendarForm t (ntfsToEfitime t) ↔ TimeMatches t := by
  unfold ntfsToEfitime rawEfitime TimeMatches
  rw [calendarForm_decode_iff]
  constructor
  · rintro ⟨hsame, hform⟩
    rw [fswEfiDecodeTime_injective hsame, toNat_ofInt_uint32] at hform
    exact hform
  · intro hmatch
    -- The time is not before 1970, so that nothing overflows and both divisions agree.
    have hnonneg : 0 ≤ t.toInt - ntfsTimeOffset := by
      omega
    have hself : s64 (t.toInt - ntfsTimeOffset) = t.toInt - ntfsTimeOffset := by
      apply s64_of_isS64
      rw [isS64_iff]
      omega
    have hdiv : (s64 (t.toInt - ntfsTimeOffset)).tdiv 10000000 =
        (t.toInt - ntfsTimeOffset) / 10000000 := by
      rw [hself]
      exact Int.tdiv_eq_ediv_of_nonneg hnonneg
    have hnat : UInt32.ofInt ((s64 (t.toInt - ntfsTimeOffset)).tdiv 10000000) =
        UInt32.ofInt t.toInt := by
      apply UInt32.toNat_inj.mp
      apply Int.natCast_inj.mp
      rw [toNat_ofInt_uint32, toNat_ofInt_uint32, hdiv, ← hmatch]
      exact Int.emod_emod_of_dvd _ (dvd_refl _)
    refine ⟨by rw [hnat], ?_⟩
    rw [hnat, toNat_ofInt_uint32, hmatch]

/-- The bit of a directory in what `NtfsReadDirectory` returns is that of a hidden file. -/
lemma readAttributes_directory :
    readAttributes inode &&& efiFileDirectory =
      bitsIf (inode.flags &&& fileAttrHidden != 0) efiFileDirectory := by
  unfold readAttributes
  have hsame : recordDirectoryFlag = fileAttrHidden := rfl
  rw [hsame]
  generalize decide (inode.mftNo < fileFirstUser) = system
  generalize (inode.flags &&& fileAttrHidden != 0) = hidden
  generalize (inode.flags &&& fileAttrReadonly != 0) = readonly
  generalize (inode.flags &&& fileAttrSystem != 0) = systemAttr
  generalize (inode.flags &&& fileAttrArchive != 0) = archive
  revert system hidden readonly systemAttr archive
  decide

lemma bitsIf_directory_inj :
    bitsIf a efiFileDirectory = bitsIf b efiFileDirectory &&& efiFileDirectory ↔ a = b := by
  revert a b
  decide

structure Agreeing (record : FileRecord) : Prop where
  data : ∃ a, record.data = some a ∧ a.opens = true ∧ a.allocated = a.size
  directory : (record.fileAttributes &&& fileAttrHidden != 0) = record.isDirectory
  creation : TimeMatches record.creationTime
  lastAccess : TimeMatches record.lastAccessTime
  modification : TimeMatches record.lastDataChangeTime

section Views

lemma getFileInfo_info (hroot : record.mftNo ≠ fileRoot)
    (hm : sizeOfEfiFileInfo + (rName.length + 1) * 2 ≤ m) :
    getFileInfo record rName m = .info
      { size := sizeOfEfiFileInfo + (rName.length + 1) * 2
        fileSize := (inodeRealOpen record).dataSize
        physicalSize := (inodeRealOpen record).allocatedSize
        createTime := rawEfitime record.creationTime
        lastAccessTime := rawEfitime record.lastAccessTime
        modificationTime := rawEfitime record.lastDataChangeTime
        attributes := bitsIf record.isDirectory efiFileDirectory
        fileName := skipBackslash (asciiStrToUnicodeStr rName) } := by
  have hnot : ¬ (inodeRealOpen record).mftNo = fileRoot := hroot
  unfold getFileInfo
  dsimp only
  rw [if_neg hnot, if_neg (by omega), if_neg hnot]
  rfl

lemma readEntryInfo_info (hdata : record.data = some a)
    (hopens : a.opens = true) (hn : sizeofEfiFileInfo + (name.length + 1) * 2 ≤ n) :
    readEntryInfo record name n = .ok (.info
      { size := sizeofEfiFileInfo + (name.length + 1) * 2
        fileSize := a.size, physicalSize := a.size
        createTime := ntfsToEfitime record.creationTime
        lastAccessTime := ntfsToEfitime record.lastAccessTime
        modificationTime := ntfsToEfitime record.lastDataChangeTime
        attributes := readAttributes (inodeRealOpen record)
        fileName := asciiStrToUnicodeStr name }) := by
  have hopen : dataAttrOpen record = some a.size := by
    rw [dataAttrOpen, hdata, Option.filter_some, if_pos hopens, Option.map_some]
  have hsize : (inodeRealOpen record).dataSize = a.size := by
    rw [inodeRealOpen, hdata]
    rfl
  unfold readEntryInfo
  dsimp only
  rw [if_neg (by omega), hopen, hsize]
  rfl

/-- Without a data attribute that can be opened a missing one is used. -/
lemma readEntryInfo_missing (hdata : ∀ a, record.data = some a → a.opens = false)
    (hn : sizeofEfiFileInfo + (name.length + 1) * 2 ≤ n) :
    readEntryInfo record name n = .error .outOfBounds := by
  have hopen : dataAttrOpen record = none := by
    rw [dataAttrOpen]
    cases hrecord : record.data with
    | none => rfl
    | some a => rw [Option.filter_some, if_neg (by rw [hdata a hrecord]; decide), Option.map_none]
  unfold readEntryInfo
  rw [if_neg (by omega), hopen]

end Views

/-- The two views of a file or directory other than the root agree exactly when it has
an unnamed data attribute that can be opened and takes as much space as its size, it
is hidden if and only if it is a directory, and the low 32 bits of each of its times are
the seconds since 1970. -/
theorem viewsAgree_iff (hroot : record.mftNo ≠ fileRoot)
    (name rName : List UInt8) : ViewsAgree record name rName ↔ Agreeing record := by
  constructor
  · intro hagree
    obtain ⟨a, b, hread, hinfo, hsame⟩ := hagree _ _ (le_refl _) (le_refl _)
    rw [getFileInfo_info hroot (le_refl _)] at hinfo
    cases hinfo
    obtain ⟨attr, hdata, hopens⟩ : ∃ attr, record.data = some attr ∧ attr.opens = true := by
      by_contra hnone
      have hmissing : ∀ attr, record.data = some attr → attr.opens = false := by
        intro attr hattr
        exact Bool.eq_false_iff.mpr (fun hopens => hnone ⟨attr, hattr, hopens⟩)
      rw [readEntryInfo_missing hmissing (le_refl _)] at hread
      cases hread
    rw [readEntryInfo_info hdata hopens (le_refl _)] at hread
    cases hread
    have hallocated : (inodeRealOpen record).allocatedSize = attr.allocated := by
      rw [inodeRealOpen, hdata]
      rfl
    have hdirectory := hsame.directory
    have hphysical := hsame.physicalSize
    rw [readAttributes_directory, bitsIf_directory_inj] at hdirectory
    exact {
      data := ⟨attr, hdata, hopens, hallocated.symm.trans hphysical.symm⟩
      directory := hdirectory
      creation := timeMatches_iff.mp ⟨hsame.createTime, hsame.creation⟩
      lastAccess := timeMatches_iff.mp ⟨hsame.lastAccessTime, hsame.lastAccess⟩
      modification := timeMatches_iff.mp ⟨hsame.modificationTime, hsame.modification⟩ }
  · intro hrecord n m hn hm
    obtain ⟨attr, hdata, hopens, hsize⟩ := hrecord.data
    obtain ⟨hcreate, hcreation⟩ := timeMatches_iff.mpr hrecord.creation
    obtain ⟨haccess, hlastAccess⟩ := timeMatches_iff.mpr hrecord.lastAccess
    obtain ⟨hmodify, hmodification⟩ := timeMatches_iff.mpr hrecord.modification
    have hopened : inodeRealOpen record =
        { inodeRealOpen record with dataSize := attr.size, allocatedSize := attr.allocated } := by
      rw [inodeRealOpen, hdata]
      rfl
    refine ⟨_, _, readEntryInfo_info hdata hopens hn, getFileInfo_info hroot hm, ?_⟩
    exact {
      fileSize := by rw [hopened]
      physicalSize := by rw [hopened]; exact hsize.symm
      directory := by
        rw [readAttributes_directory, bitsIf_directory_inj]
        exact hrecord.directory
      createTime := hcreate
      lastAccessTime := haccess
      modificationTime := hmodify
      creation := hcreation
      lastAccess := hlastAccess
      modification := hmodification }

def eightBytes : FileRecord where
  mftNo := 40
  isDirectory := false
  fileAttributes := 0x20
  creationTime := 132444737035440231
  lastDataChangeTime := 132444737035440231
  lastAccessTime := 132444737035440231
  data := some
    { nonResident := false, packed := false, dataSize := 0, allocatedSize := 0
      compressedSize := 0, valueLength := 8, opens := true }

theorem eightBytes_viewsAgree : ViewsAgree eightBytes [97] [97] :=
  (viewsAgree_iff (by decide) [97] [97]).mpr
    ⟨⟨_, rfl, rfl, by decide⟩, by decide, by decide, by decide, by decide⟩

def bareDirectory : FileRecord :=
  { eightBytes with isDirectory := true, fileAttributes := 0, data := none }

def fiveBytes : FileRecord :=
  { eightBytes with
    lastDataChangeTime := 132444737045440231
    data := some
      { nonResident := false, packed := false, dataSize := 0, allocatedSize := 0
        compressedSize := 0, valueLength := 5, opens := true } }

/-- What a read of the directory shows of the file. -/
def fiveBytesEntry : EfiFileInfo where
  size := 92
  fileSize := 5
  physicalSize := 5
  createTime := some ⟨2020, 9, 13, 12, 28, 23⟩
  lastAccessTime := some ⟨2020, 9, 13, 12, 28, 23⟩
  modificationTime := some ⟨2020, 9, 13, 12, 28, 24⟩
  attributes := 0x20
  fileName := [97]

/-- What `GetInfo` on the opened file shows. -/
def fiveBytesInfo : EfiFileInfo :=
  { fiveBytesEntry with
    size := 84, physicalSize := 8, attributes := 0
    modificationTime := some ⟨2021, 1, 7, 6, 15, 3⟩ }

/-- Reading the entry of a directory uses a data attribute that is not there, and the
two views of a file of five bytes have different sizes and times. -/
theorem views_differ :
    readEntryInfo bareDirectory [97] 100 = .error .outOfBounds ∧
      readEntryInfo fiveBytes [97] 100 = .ok (.info fiveBytesEntry) ∧
      getFileInfo fiveBytes [97] 100 = .info fiveBytesInfo ∧
      ¬ ViewsAgree bareDirectory [97] [97] ∧ ¬ ViewsAgree fiveBytes [97] [97] := by
  have hfails : readEntryInfo bareDirectory [97] 100 = .error .outOfBounds := by decide
  have hentry : readEntryInfo fiveBytes [97] 100 = .ok (.info fiveBytesEntry) := by decide
  have hopened : getFileInfo fiveBytes [97] 100 = .info fiveBytesInfo := by decide
  refine ⟨hfails, hentry, hopened, fun hagree => ?_, fun hagree => ?_⟩
  · obtain ⟨a, b, hread, -⟩ := hagree 100 100 (by decide) (by decide)
    cases hread.symm.trans hfails
  · obtain ⟨a, b, hread, hinfo, hsame⟩ := hagree 100 100 (by decide) (by decide)
    cases hread.symm.trans hentry
    cases hinfo.symm.trans hopened
    exact absurd hsame.physicalSize (by decide)

/-! ## The current time -/

/-- `time`, when the clock shows `curr`. Months and days are counted from 1 there. -/
def time (curr : DateTime) : Int :=
  s32 ((curr.year - 1970) * 31556926 + curr.month * 2629743 + curr.day * 86400 +
    curr.hour * 3600 + curr.minute * 60 + curr.second)

def timespec2ntfs (sec nsec : Int) : Int64 :=
  Int64.ofInt (sec * 10000000 + ntfsTimeOffset + nsec.tdiv 100)

def ntfsCurrentTime (curr : DateTime) : Int64 := timespec2ntfs (time curr) 0

lemma ntfsToEfitime_timespec2ntfs (hsec : IsS32 sec) :
    ntfsToEfitime (timespec2ntfs sec 0) = fswEfiDecodeTime (UInt32.ofInt sec) := by
  have hrange := isS32_iff.mp hsec
  have hsum : (timespec2ntfs sec 0).toInt = sec * 10000000 + ntfsTimeOffset := by
    unfold timespec2ntfs ntfsTimeOffset
    rw [Int.zero_tdiv, add_zero, Int64.toInt_ofInt_of_le]
    · omega
    · omega
  rw [ntfsToEfitime, hsum, Int.add_sub_cancel, s64_of_isS64 (isS64_iff.mpr (by omega)),
    Int.mul_tdiv_cancel _ (by decide)]

/-- The seconds that `time` yields are those of a date about a month later. -/
theorem ntfsCurrentTime_ne (curr : DateTime) (hvalid : curr.Valid) (hfirst : 1970 ≤ curr.year)
    (hlast : curr.year ≤ 2105) : ntfsToEfitime (ntfsCurrentTime curr) ≠ some curr := by
  intro hsame
  obtain ⟨d, hd, -, hseconds⟩ := @fswEfiDecodeTime_spec (UInt32.ofInt (time curr))
  obtain rfl := Option.some.inj
    (hsame.symm.trans ((ntfsToEfitime_timespec2ntfs (s32_isS32 _)).trans hd))
  -- The length of a year in `time` is right up to two days.
  have hdrift : 86400 * daysBeforeYear curr.year ≤ 31556926 * (curr.year - 1970) + 62167392000 ∧
      31556926 * (curr.year - 1970) + 62167046400 ≤ 86400 * daysBeforeYear curr.year := by
    obtain ⟨y, hy⟩ : ∃ y, curr.year = y + 1 := ⟨curr.year - 1, by omega⟩
    have hyear := daysBeforeYear_succ y
    rw [← hy] at hyear
    omega
  obtain ⟨x, hx⟩ : ∃ x : Int, time curr = s32 x ∧
      curr.seconds < x + 62167219200 ∧ x + 62167219200 < curr.seconds + 4294967296 := by
    refine ⟨_, rfl, ?_⟩
    have hdays := @take_monthLengths_sum_le curr.year (curr.month - 1)
    obtain ⟨length, hlength, -⟩ := hvalid.day_le
    have hmonth : curr.month - 1 < 12 := (List.getElem?_eq_some_iff.mp hlength).1
    have hmonth_pos := hvalid.month_pos
    have hday_pos := hvalid.day_pos
    rw [seconds, dayNumber]
    omega
  have hmod := toNat_ofInt_uint32.trans (Int.bmod_emod (x := x) (m := 4294967296))
  rw [daysBeforeYear_1970, hx.1] at hseconds
  change _ = _ + (UInt32.ofInt (x.bmod 4294967296)).toNat at hseconds
  omega

theorem ntfsCurrentTime_ne_noon :
    ntfsToEfitime (ntfsCurrentTime ⟨2026, 6, 30, 12, 0, 0⟩) ≠ some ⟨2026, 6, 30, 12, 0, 0⟩ :=
  ntfsCurrentTime_ne _ ⟨by decide, by decide, ⟨30, rfl, by decide⟩, by decide, by decide,
    by decide⟩ (by decide) (by decide)

/-- At the beginning of 1970, a time in February is stored. -/
theorem ntfsCurrentTime_unixEpoch :
    ntfsToEfitime (ntfsCurrentTime unixEpoch) = some ⟨1970, 2, 1, 10, 29, 3⟩ := by
  decide +kernel

end NtfsDxe
