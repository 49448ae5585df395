import NtfsDxe.Core.Machine
import NtfsDxe.Foundation.Splice

/-! # Writing through the file protocol

`NtfsWriteFile` hands the caller's buffer to `ntfs_write_r`, which repeats
`ntfs_attr_pwrite` until the requested length is used up. A single call may
take only part of what it is given: for compressed data it stops at the end of
the compression block. The attribute is represented by its contents, and the
number of bytes taken is a parameter of the model.
-/

namespace NtfsDxe

open Foundation

/-! ## The attribute -/

/-- Overwrite the contents of an attribute from `pos` on, filling a gap before
`pos` with zeros. -/
def overwrite (data : Buffer) (pos : Nat) (bytes : List UInt8) : Buffer :=
  splice (data ++ List.replicate (pos + bytes.length - data.length) 0) pos bytes

/-- The bytes that `ntfs_attr_pwrite` takes of a request at a position: at least
one, and not more than requested. Within one write every request has another
length, so this covers every sequence of counts. -/
structure PartialCounts where
  accept : Int → Int → Int
  accept_pos : ∀ pos count, 0 < count → 0 < accept pos count
  accept_le : ∀ pos count, 0 < count → accept pos count ≤ count

/-- `ntfs_attr_pwrite`, with the result `-1` for invalid arguments. -/
def attrPwrite (counts : PartialCounts) (data : Buffer) (pos count : Int) (b : Buffer) :
    Int × Buffer :=
  if pos < 0 ∨ count < 0 then (-1, data)
  else
    let ret := counts.accept pos count
    (ret, overwrite data pos.toNat (b.take ret.toNat))

/-! ## The write loop -/

/-- The variables of the loop in `ntfs_write_r`. -/
structure WriteState where
  data : Buffer
  pos : Int
  written : Int

lemma attrPwrite_count_nonneg (hret : ¬ s32 (attrPwrite counts data pos count b).1 ≤ 0) :
    0 ≤ count := by
  by_contra hneg
  apply hret
  rw [attrPwrite, if_pos (.inr (by omega))]
  exact (by decide : s32 (-1) ≤ 0)

/-- The loop of `ntfs_write_r`, with the error that ended it early. The source
pointer `ptr` is the same for every call. -/
def writeLoop (counts : PartialCounts) (ptr : Buffer) (len : Int) (s : WriteState) :
    WriteState × Option Errno :=
  if len = 0 then (s, none)
  else
    let r := attrPwrite counts s.data s.pos len ptr
    let ret := s32 r.1
    if ret ≤ 0 then ({ s with data := r.2 }, some .einval)
    else
      writeLoop counts ptr (len - ret)
        { data := r.2, pos := s32 (s.pos + ret), written := s32 (s.written + ret) }
termination_by len.toNat
decreasing_by
  rename_i hlen hret
  have hnonneg := attrPwrite_count_nonneg hret
  change ¬ s32 (attrPwrite counts s.data s.pos len ptr).1 ≤ 0 at hret
  change (len - s32 (attrPwrite counts s.data s.pos len ptr).1).toNat < len.toNat
  omega

/-- The fields of `ntfs_file_state` used by the write path. The inode is known by
its archive flag and the data attribute by its contents. -/
structure FileState where
  vd : Bool
  ni : Option Bool
  dataNa : Option Buffer
  write : Bool
  append : Bool
  pos : Int
  len : Nat
  deriving DecidableEq

/-- `ntfs_write_r`: the result, the file state and `_errno`. -/
def ntfsWriteR (counts : PartialCounts) (file : FileState) (ptr : Option Buffer) (len : Int) :
    Int × FileState × Option Errno :=
  match file.vd, file.ni, file.dataNa with
  | true, some archive, some data =>
    match ptr with
    | none => (0, file, none)
    | some ptr =>
      if len ≤ 0 then (0, file, none)
      else if file.write = false then (-1, file, some .eacces)
      else
        let oldPos := file.pos
        let pos := if file.append then s32 file.len else file.pos
        match writeLoop counts ptr len { data := data, pos := pos, written := 0 } with
        | (s, some errno) =>
          (-1, { file with dataNa := some s.data, pos := s.pos }, some errno)
        | (s, none) =>
          (s.written,
            { file with
              ni := some (if s.written ≠ 0 then true else archive)
              dataNa := some s.data
              pos := if file.append then oldPos else s.pos
              len := s.data.length },
            none)
  | _, _, _ => (-1, file, some .einval)

/-! ## The protocol function -/

/-- The kinds of handle distinguished by `NtfsWriteFile`. -/
inductive HandleType where
  | file
  | dir
  | other

/-- The status codes returned by `NtfsWriteFile`. -/
inductive EfiStatus where
  | success
  | deviceError
  | accessDenied
  | unsupported
  deriving DecidableEq

/-- The outcome of `NtfsWriteFile`: its status, the new `*BufferSize`, and the
file state. -/
structure WriteOutcome where
  status : EfiStatus
  bufferSize : Nat
  file : FileState

/-- `NtfsWriteFile`. The size is passed on as an `int`. -/
def ntfsWriteFile (counts : PartialCounts) (type : HandleType) (file : FileState)
    (bufferSize : Nat) (buffer : Option Buffer) : WriteOutcome :=
  match type with
  | .file =>
    let (rbytes, file', _) := ntfsWriteR counts file buffer (s32 bufferSize)
    if 0 ≤ rbytes then { status := .success, bufferSize := rbytes.toNat, file := file' }
    else { status := .deviceError, bufferSize := 0, file := file' }
  | .dir => { status := .accessDenied, bufferSize := bufferSize, file := file }
  | .other => { status := .unsupported, bufferSize := bufferSize, file := file }

/-! ## The contents after a sequence of partial writes -/

lemma overwrite_getElem?_before (bytes : List UInt8)
    (hj : j < data.length) (hpos : j < pos) : (overwrite data pos bytes)[j]? = data[j]? := by
  rw [overwrite, splice_getElem? (by simp; omega), if_neg (by omega), List.getElem?_append_left hj]

lemma overwrite_getElem?_inside (hi : i < bytes.length) :
    (overwrite data pos bytes)[pos + i]? = bytes[i]? := by
  rw [overwrite, splice_getElem? (by simp; omega), if_pos (by omega), Nat.add_sub_cancel_left]

lemma overwrite_length_ge (data : Buffer) (pos : Nat) (bytes : List UInt8) :
    pos + bytes.length ≤ (overwrite data pos bytes).length := by
  rw [overwrite, splice_length (by simp; omega)]
  simp
  omega

/-- The contents after writes of the given sizes, each from the start of `ptr`. -/
def writeChunks (ptr : Buffer) : Buffer → Nat → List Nat → Buffer
  | data, _, [] => data
  | data, pos, r :: sizes => writeChunks ptr (overwrite data pos (ptr.take r)) (pos + r) sizes

lemma writeChunks_getElem?_before (sizes : List Nat)
    (hj : j < data.length) (hpos : j < pos) : (writeChunks ptr data pos sizes)[j]? = data[j]? := by
  induction sizes generalizing data pos with
  | nil => rfl
  | cons r sizes ih =>
    have hlen := overwrite_length_ge data pos (ptr.take r)
    rw [writeChunks, ih (by omega) (by omega), overwrite_getElem?_before _ hj hpos]

/-- Every write finds at the start of the buffer the bytes at its own offset. -/
def ChunksRepeat (ptr : Buffer) : Nat → List Nat → Prop
  | _, [] => True
  | off, r :: sizes => (∀ i < r, ptr[off + i]? = ptr[i]?) ∧ ChunksRepeat ptr (off + r) sizes

/-- The contents are those of the buffer exactly when the writes repeat its start. -/
lemma writeChunks_eq_iff (data : Buffer) (pos off : Nat) (hroom : off + sizes.sum ≤ ptr.length) :
    (∀ i < sizes.sum, (writeChunks ptr data pos sizes)[pos + i]? = ptr[off + i]?) ↔
      ChunksRepeat ptr off sizes := by
  induction sizes generalizing data pos off with
  | nil => simp [ChunksRepeat]
  | cons r sizes ih =>
    rw [List.sum_cons] at hroom ⊢
    have hlen : (ptr.take r).length = r := by simp; omega
    have hge := overwrite_length_ge data pos (ptr.take r)
    -- Later writes leave the bytes of this one alone.
    have hfirst : ∀ i < r, (writeChunks ptr data pos (r :: sizes))[pos + i]? = ptr[i]? := by
      intro i hi
      rw [writeChunks, writeChunks_getElem?_before sizes (by omega) (by omega),
        overwrite_getElem?_inside (by omega), List.getElem?_take_of_lt hi]
    have hrest := ih (overwrite data pos (ptr.take r)) (pos + r) (off + r) (by omega)
    rw [ChunksRepeat, ← hrest]
    constructor
    · intro hall
      constructor
      · intro i hi
        rw [← hall i (by omega), hfirst i hi]
      · intro i hi
        have hbyte := hall (r + i) (by omega)
        rwa [← add_assoc, ← add_assoc] at hbyte
    · rintro ⟨hhead, htail⟩ i hi
      by_cases hbefore : i < r
      · rw [hfirst i hbefore, hhead i hbefore]
      · have hbyte := htail (i - r) (by omega)
        rwa [add_assoc, add_assoc, Nat.add_sub_cancel' (by omega)] at hbyte

/-! ## Runs of the loop -/

/-- The sizes of the successive writes into which a request is split. -/
def PartialCounts.split (counts : PartialCounts) (pos : Int) (len : Nat) : List Nat :=
  if len = 0 then []
  else
    let r := (counts.accept pos len).toNat
    r :: counts.split (pos + r) (len - r)
termination_by len
decreasing_by
  have hpos := counts.accept_pos pos len (by omega)
  omega

/-- Every request of a split starts at a position that an `int` can hold. -/
def RequestsInRange : Int → List Nat → Prop
  | _, [] => True
  | pos, r :: sizes => pos ≤ intMax ∧ RequestsInRange (pos + r) sizes

section Loop

variable (counts : PartialCounts)

@[simp] lemma PartialCounts.split_zero : counts.split pos 0 = [] := by
  rw [PartialCounts.split, if_pos rfl]

variable {len r : Nat}

lemma PartialCounts.split_cons (hlen : len ≠ 0) (haccept : counts.accept pos len = r) :
    counts.split pos len = r :: counts.split (pos + r) (len - r) := by
  rw [PartialCounts.split, if_neg hlen, haccept]
  rfl

/-- One step of a split: the size is positive and not larger than the request. -/
lemma PartialCounts.split_succ (hlen : len ≠ 0) :
    ∃ r : Nat, counts.accept pos len = r ∧ 0 < r ∧ r ≤ len ∧
      counts.split pos len = r :: counts.split (pos + r) (len - r) := by
  have hpos := counts.accept_pos pos len (by omega)
  have hle := counts.accept_le pos len (by omega)
  have haccept : counts.accept pos len = (counts.accept pos len).toNat := by omega
  exact ⟨_, haccept, by omega, by omega, counts.split_cons hlen haccept⟩

lemma PartialCounts.split_sum : (counts.split pos len).sum = len := by
  induction len using Nat.strongRecOn generalizing pos with
  | ind len ih =>
    by_cases hlen : len = 0
    · rw [hlen, counts.split_zero, List.sum_nil]
    · obtain ⟨r, _, hr, hle, hsplit⟩ := counts.split_succ hlen
      rw [hsplit, List.sum_cons, ih (len - r) (by omega)]
      omega

lemma writeLoop_step (hpos : 0 ≤ s.pos) (hlen : (len : Int) ≤ intMax)
    (haccept : counts.accept s.pos len = r) (hr : 0 < r) (hle : r ≤ len) :
    writeLoop counts ptr len s =
      writeLoop counts ptr (len - r : Nat)
        { data := overwrite s.data s.pos.toNat (ptr.take r), pos := s32 (s.pos + r),
          written := s32 (s.written + r) } := by
  have hret : s32 r = r := s32_of_le_intMax (by omega) (by omega)
  have hcall : attrPwrite counts s.data s.pos len ptr =
      ((r : Int), overwrite s.data s.pos.toNat (ptr.take r)) := by
    rw [attrPwrite, if_neg (by omega), haccept]
    rfl
  rw [writeLoop, if_neg (by omega), hcall]
  dsimp only
  rw [hret, if_neg (by omega), Int.ofNat_sub hle]

/-- While every request starts in range the loop performs all its writes. -/
lemma writeLoop_inRange (ptr : Buffer) (hpos : 0 ≤ s.pos) (hlen : (len : Int) ≤ intMax)
    (hne : len ≠ 0) (hrange : RequestsInRange s.pos (counts.split s.pos len)) :
    writeLoop counts ptr len s =
      ({ data := writeChunks ptr s.data s.pos.toNat (counts.split s.pos len),
         pos := s32 (s.pos + len), written := s32 (s.written + len) }, none) := by
  induction len using Nat.strongRecOn generalizing s with
  | ind len ih =>
    obtain ⟨r, haccept, hr, hle, hsplit⟩ := counts.split_succ hne
    rw [hsplit] at hrange ⊢
    rw [writeLoop_step counts hpos hlen haccept hr hle, writeChunks]
    by_cases hlast : len - r = 0
    · have hall : r = len := by omega
      rw [hall, Nat.sub_self, writeLoop, counts.split_zero]
      rfl
    · obtain ⟨_, hnext⟩ := hrange
      obtain ⟨r', _, _, _, hsplit'⟩ := counts.split_succ hlast
      have hin : s.pos + r ≤ intMax := by
        rw [hsplit'] at hnext
        exact hnext.1
      rw [s32_of_le_intMax (by omega) hin,
        ih (len - r) (by omega) (by dsimp only; omega) (by omega) hlast hnext]
      have hwritten : s32 (s32 (s.written + r) + (len - r : Nat)) = s32 (s.written + len) := by
        rw [add_comm, s32, s32, SignedBytes.wrap_add_wrap]
        congr 1
        omega
      have htoNat : (s.pos + r).toNat = s.pos.toNat + r := by omega
      have hend : s.pos + r + (len - r : Nat) = s.pos + len := by omega
      rw [hwritten, hend, htoNat]

/-- A request that starts out of range ends the loop with an error. -/
lemma writeLoop_outOfRange (hpos : 0 ≤ s.pos) (hmax : s.pos ≤ intMax)
    (hlen : (len : Int) ≤ intMax) (hrange : ¬ RequestsInRange s.pos (counts.split s.pos len)) :
    (writeLoop counts ptr len s).2 = some .einval := by
  induction len using Nat.strongRecOn generalizing s with
  | ind len ih =>
    have hne : len ≠ 0 := by
      rintro rfl
      rw [counts.split_zero] at hrange
      exact hrange trivial
    obtain ⟨r, haccept, hr, hle, hsplit⟩ := counts.split_succ hne
    rw [hsplit] at hrange
    have hnext : ¬ RequestsInRange (s.pos + r) (counts.split (s.pos + r) (len - r)) :=
      fun h => hrange ⟨hmax, h⟩
    rw [writeLoop_step counts hpos hlen haccept hr hle]
    by_cases hin : s.pos + r ≤ intMax
    · rw [s32_of_le_intMax (by omega) hin]
      exact ih (len - r) (by omega) (by dsimp only; omega) hin (by omega) hnext
    · -- The position has wrapped around, and the next call rejects it.
      have hlast : len - r ≠ 0 := by
        intro hzero
        rw [hzero, counts.split_zero] at hnext
        exact hnext trivial
      have hneg : s32 (s.pos + r) < 0 := by
        rw [s32_of_overflow (by omega) (by omega)]
        unfold intMax at hmax hlen
        omega
      rw [writeLoop, if_neg (by omega), attrPwrite, if_pos (Or.inl hneg)]
      rfl

end Loop

/-! ## The bytes a successful write leaves -/

/-- A handle of an open file with the given contents that may be written, and
not only appended to. -/
structure OpenForWriting (file : FileState) (data : Buffer) : Prop where
  vd_eq : file.vd = true
  ni_isSome : file.ni.isSome
  dataNa_eq : file.dataNa = some data
  write_eq : file.write = true
  append_eq : file.append = false
  pos_isS32 : IsS32 file.pos

/-- Whenever the write succeeds with a count, that many bytes of the buffer are
in the file from the old position on and the position has advanced by the count. -/
def StoresBuffer (counts : PartialCounts) (file : FileState) (bufferSize : Nat)
    (buffer : Buffer) : Prop :=
  ∀ n file', ntfsWriteFile counts .file file bufferSize (some buffer) =
      { status := .success, bufferSize := n, file := file' } →
    (∀ i < n, ∃ data, file'.dataNa = some data ∧ data[(file.pos + i).toNat]? = buffer[i]?) ∧
      file'.pos = file.pos + n

section Protocol

variable {bufferSize : Nat}

section

variable (hfile : OpenForWriting file data)
include hfile

lemma ntfsWriteFile_nothing (hlen : s32 bufferSize ≤ 0) :
    ntfsWriteFile counts .file file bufferSize (some buffer) =
      { status := .success, bufferSize := 0, file := file } := by
  obtain ⟨archive, hni⟩ := Option.isSome_iff_exists.mp hfile.ni_isSome
  simp [ntfsWriteFile, ntfsWriteR, hfile.vd_eq, hni, hfile.dataNa_eq, hlen]

lemma ntfsWriteFile_failed (hlen : 0 < s32 bufferSize)
    (hloop : (writeLoop counts buffer (s32 bufferSize)
      { data := data, pos := file.pos, written := 0 }).2 = some .einval) :
    (ntfsWriteFile counts .file file bufferSize (some buffer)).status = .deviceError := by
  obtain ⟨archive, hni⟩ := Option.isSome_iff_exists.mp hfile.ni_isSome
  obtain ⟨s, hs⟩ : ∃ s, writeLoop counts buffer (s32 bufferSize)
      { data := data, pos := file.pos, written := 0 } = (s, some .einval) := ⟨_, Prod.ext rfl hloop⟩
  simp [ntfsWriteFile, ntfsWriteR, hfile.vd_eq, hni, hfile.dataNa_eq, not_le.mpr hlen,
    hfile.write_eq, hfile.append_eq, hs]

lemma ntfsWriteFile_written (hlen : 0 < s32 bufferSize)
    (hloop : writeLoop counts buffer (s32 bufferSize)
      { data := data, pos := file.pos, written := 0 } = (s, none))
    (hwritten : 0 ≤ s.written) :
    ∃ file', ntfsWriteFile counts .file file bufferSize (some buffer) =
        { status := .success, bufferSize := s.written.toNat, file := file' } ∧
      file'.dataNa = some s.data ∧ file'.pos = s.pos := by
  obtain ⟨archive, hni⟩ := Option.isSome_iff_exists.mp hfile.ni_isSome
  simp [ntfsWriteFile, ntfsWriteR, hfile.vd_eq, hni, hfile.dataNa_eq, not_le.mpr hlen,
    hfile.write_eq, hfile.append_eq, hloop, hwritten]

end

lemma storesBuffer_of_not_success
    (hstatus : (ntfsWriteFile counts .file file bufferSize (some buffer)).status ≠ .success) :
    StoresBuffer counts file bufferSize buffer := by
  intro n file' hwrite
  rw [hwrite] at hstatus
  exact absurd rfl hstatus

/-- A write all of whose requests are in range stores the buffer exactly when
its parts repeat the start of the buffer and the new position fits. -/
lemma storesBuffer_inRange_iff {len : Nat} (hfile : OpenForWriting file data)
    (hbuffer : bufferSize ≤ buffer.length) (hlen : s32 bufferSize = len) (hne : len ≠ 0)
    (hpos : 0 ≤ file.pos) (hrange : RequestsInRange file.pos (counts.split file.pos len)) :
    StoresBuffer counts file bufferSize buffer ↔
      file.pos + len ≤ intMax ∧ ChunksRepeat buffer 0 (counts.split file.pos len) := by
  have hintLen : IsS32 (len : Int) := hlen ▸ s32_isS32 _
  have hwrap : s32 (0 + (len : Int)) = len := by
    rw [zero_add]
    exact s32_of_isS32 hintLen
  have hintPos := hfile.pos_isS32
  rw [isS32_iff] at hintLen hintPos
  have hmax : (len : Int) ≤ intMax := by unfold intMax; omega
  have hloop := writeLoop_inRange counts buffer
    (s := { data := data, pos := file.pos, written := 0 }) hpos hmax hne hrange
  rw [hwrap, ← hlen] at hloop
  obtain ⟨file', hwrite, hdata, hpos'⟩ := ntfsWriteFile_written hfile (by omega) hloop
    (by dsimp only; omega)
  simp only [hlen] at hwrite hdata hpos'
  have hle : (len : Int) ≤ bufferSize := by
    rw [← hlen]
    exact s32_le (by omega)
  have hroom : 0 + (counts.split file.pos len).sum ≤ buffer.length := by
    rw [counts.split_sum]
    omega
  have hcontents := writeChunks_eq_iff data file.pos.toNat 0 hroom
  rw [counts.split_sum] at hcontents
  have hadvance : s32 (file.pos + len) = file.pos + len ↔ file.pos + len ≤ intMax := by
    constructor
    · intro hsame
      have hfits := isS32_iff.mp (hsame ▸ s32_isS32 (file.pos + len))
      unfold intMax
      omega
    · exact s32_of_le_intMax (by omega)
  have hoffset : ∀ i : Nat, (file.pos + i).toNat = file.pos.toNat + i := by omega
  constructor
  · intro hstores
    obtain ⟨hbytes, hnew⟩ := hstores _ file' hwrite
    refine ⟨hadvance.mp (hpos'.symm.trans hnew), hcontents.mp ?_⟩
    intro i hi
    obtain ⟨data', hdata', hbyte⟩ := hbytes i hi
    rw [hdata] at hdata'
    cases hdata'
    rw [hoffset] at hbyte
    rw [zero_add]
    exact hbyte
  · rintro ⟨hin, hrepeat⟩ n file'' hwrite'
    rw [hwrite] at hwrite'
    cases hwrite'
    refine ⟨?_, hpos'.trans (hadvance.mpr hin)⟩
    intro i hi
    have hbyte := hcontents.mpr hrepeat i hi
    rw [zero_add] at hbyte
    exact ⟨_, hdata, by rw [hoffset]; exact hbyte⟩

end Protocol

/-- When a write through the protocol stores the caller's bytes: nothing is to be
written, the position is invalid, a later request of the split is out of range
so that the write fails, or the new position fits and every partial write finds
at the start of the buffer the bytes at its own offset. -/
theorem ntfsWriteFile_storesBuffer_iff (counts : PartialCounts) (file : FileState)
    (data buffer : Buffer) (bufferSize : Nat) (hfile : OpenForWriting file data)
    (hbuffer : bufferSize ≤ buffer.length) :
    StoresBuffer counts file bufferSize buffer ↔
      s32 bufferSize ≤ 0 ∨ file.pos < 0 ∨
        ¬ RequestsInRange file.pos (counts.split file.pos (s32 bufferSize).toNat) ∨
        (file.pos + s32 bufferSize ≤ intMax ∧
          ChunksRepeat buffer 0 (counts.split file.pos (s32 bufferSize).toNat)) := by
  by_cases hlen : s32 bufferSize ≤ 0
  · refine iff_of_true ?_ (.inl hlen)
    intro n file' hwrite
    rw [ntfsWriteFile_nothing hfile hlen] at hwrite
    cases hwrite
    simp
  obtain ⟨len, hlenEq⟩ := Int.eq_ofNat_of_zero_le (le_of_lt (not_le.mp hlen))
  have hne : len ≠ 0 := by omega
  have hintLen : IsS32 (len : Int) := hlenEq ▸ s32_isS32 _
  have hintPos := hfile.pos_isS32
  rw [isS32_iff] at hintLen hintPos
  by_cases hpos : file.pos < 0
  · refine iff_of_true ?_ (.inr (.inl hpos))
    apply storesBuffer_of_not_success
    rw [ntfsWriteFile_failed hfile (not_le.mp hlen)]
    · simp
    · rw [writeLoop, if_neg (by omega), attrPwrite, if_pos (Or.inl hpos)]
      rfl
  rw [hlenEq]
  by_cases hrange : RequestsInRange file.pos (counts.split file.pos len)
  · rw [storesBuffer_inRange_iff hfile hbuffer hlenEq hne (not_lt.mp hpos) hrange]
    constructor
    · intro hstores
      exact .inr (.inr (.inr hstores))
    · rintro (hzero | hneg | hout | hstores)
      · omega
      · exact absurd hneg hpos
      · exact absurd hrange hout
      · exact hstores
  · refine iff_of_true ?_ (.inr (.inr (.inl hrange)))
    apply storesBuffer_of_not_success
    rw [ntfsWriteFile_failed hfile (not_le.mp hlen)]
    · simp
    · rw [hlenEq]
      exact writeLoop_outOfRange counts (not_lt.mp hpos)
        (by dsimp only; unfold intMax; omega) (by unfold intMax; omega) hrange

/-! ## Compressed data -/

/-- The counts of `ntfs_attr_pwrite` for compressed data: a request is cut at the
end of its compression block of 8192 bytes. -/
def compressedCounts : PartialCounts where
  accept pos count := min count ((pos.toNat ||| 8191 : Nat) + 1 - pos.toNat)
  accept_pos := by
    intro pos count hcount
    have hle : pos.toNat ≤ pos.toNat ||| 8191 := Nat.left_le_or
    omega
  accept_le := by
    intro pos count _
    exact min_le_left _ _

def zeroFile (size : Nat) : FileState :=
  { vd := true, ni := some false, dataNa := some (List.replicate size 0), write := true,
    append := false, pos := size, len := size }

lemma zeroFile_open (hsize : size ≤ 8191) :
    OpenForWriting (zeroFile size) (List.replicate size 0) := by
  refine ⟨rfl, rfl, rfl, rfl, rfl, ?_⟩
  change -2147483648 ≤ (size : Int) ∧ (size : Int) < 2147483648
  omega

theorem ntfsWriteFile_storesBuffer_oneBlock :
    StoresBuffer compressedCounts (zeroFile 0) 2 [0x61, 0x62] := by
  have hsplit : compressedCounts.split 0 2 = [2] := by
    rw [compressedCounts.split_cons (by decide) (by decide : _ = ((2 : Nat) : Int)),
      compressedCounts.split_zero]
  rw [ntfsWriteFile_storesBuffer_iff compressedCounts (zeroFile 0) [] [0x61, 0x62] 2
    (zeroFile_open (by decide)) (by decide)]
  refine .inr (.inr (.inr ⟨by decide, ?_⟩))
  change ChunksRepeat _ 0 (compressedCounts.split 0 2)
  rw [hsplit]
  refine ⟨?_, trivial⟩
  intro i _
  rw [zero_add]

/-- Two bytes written across the end of a compression block: the second partial
write starts again at the beginning of the buffer. -/
theorem ntfsWriteFile_storesFirstByteTwice :
    ¬ StoresBuffer compressedCounts (zeroFile 8191) 2 [0x61, 0x62] := by
  have hsplit : compressedCounts.split 8191 2 = [1, 1] := by
    rw [compressedCounts.split_cons (by decide) (by decide : _ = ((1 : Nat) : Int)),
      compressedCounts.split_cons (by decide) (by decide : _ = ((1 : Nat) : Int)),
      compressedCounts.split_zero]
  have hrange : RequestsInRange (zeroFile 8191).pos
      (compressedCounts.split (zeroFile 8191).pos 2) := by
    change RequestsInRange 8191 (compressedCounts.split 8191 2)
    rw [hsplit]
    simp [RequestsInRange, intMax]
  rw [storesBuffer_inRange_iff (zeroFile_open (by decide)) (by decide) (by decide) (by decide)
    (by decide) hrange]
  rintro ⟨_, hrepeat⟩
  change ChunksRepeat [0x61, 0x62] 0 (compressedCounts.split 8191 2) at hrepeat
  rw [hsplit] at hrepeat
  have hbyte := hrepeat.2.1 0 (by decide)
  exact absurd hbyte (by decide)

end NtfsDxe
