import NtfsDxe.Core.AttrData
import NtfsDxe.File.Write

/-! # Reading through the file protocol

`NtfsReadFile` hands the caller's buffer to `ntfs_read_r`, which cuts the request
at the end of the file and repeats `ntfs_attr_pread` until it is used up. The
position of a file is an `int` and its length a `u64`, so the test for the end of
the file mixes the two.
-/

namespace NtfsDxe

open Foundation List AttrData

/-! ## The attribute -/

/-- The `n` bytes of the data from `pos` on. -/
def AttrData.slice (na : AttrData) (pos n : Nat) : Buffer :=
  (range n).map fun k => na.byte (pos + k)

variable (na : AttrData) (pos : Nat)

@[simp] lemma AttrData.slice_length (n : Nat) : (na.slice pos n).length = n := by
  simp [slice]

@[simp] lemma AttrData.slice_zero : na.slice pos 0 = [] := rfl

lemma AttrData.slice_append : na.slice pos m ++ na.slice (pos + m) n = na.slice pos (m + n) := by
  rw [slice, slice, slice, range_add, map_append, map_map]
  congr 1
  apply map_congr_left
  intro k _
  rw [Function.comp_apply, add_assoc]

/-- `ntfs_attr_pread`, with `none` for the result `-1`. As far as the data reach,
part of the request is served. -/
def attrPread (counts : PartialCounts) (na : AttrData) (pos count : Int) : Option Buffer :=
  if pos < 0 ∨ count < 0 then none
  else
    let avail := min count.toNat (na.size - pos.toNat)
    if avail = 0 then some []
    else some (na.slice pos.toNat (counts.accept pos avail).toNat)

/-! ## The read loop -/

/-- Conversion to the driver's unsigned 64-bit integers. -/
def u64 (x : Int) : Int := x % 18446744073709551616

/-- The variables of the loop in `ntfs_read_r`; `ptr` is an offset into the
caller's buffer. -/
structure ReadState where
  buffer : Buffer
  ptr : Nat
  pos : Int
  read : Int

/-- How the loop of `ntfs_read_r` ends. -/
inductive LoopEnd where
  | done
  | failed

/-- The loop of `ntfs_read_r`. The bytes go to `ptr`, and storing them behind the
end of the caller's buffer is an access violation. -/
def readLoop (counts : PartialCounts) (na : AttrData) (len : Int) (s : ReadState) :
    Except Failure (ReadState × LoopEnd) :=
  if len = 0 then .ok (s, .done)
  else
    match attrPread counts na s.pos len with
    | none => .ok (s, .failed)
    | some bytes =>
      if s.buffer.length < s.ptr + bytes.length then .error .outOfBounds
      else
        let buffer := splice s.buffer s.ptr bytes
        let ret := s32 bytes.length
        if ret ≤ 0 ∨ len < ret then .ok ({ s with buffer := buffer }, .failed)
        else
          readLoop counts na (len - ret)
            { buffer := buffer, ptr := s.ptr + ret.toNat, pos := s32 (s.pos + ret),
              read := s32 (s.read + ret) }
termination_by len.toNat

/-- The fields of `ntfs_file_state` used for reading. The data attribute is known
by its contents. -/
structure ReadFileState where
  vd : Bool
  ni : Bool
  dataNa : Option AttrData
  read : Bool
  pos : Int
  len : Nat

/-- The request cut at the end of the file. The sum is an `int`, compared as a
`u64`, and the rest of the file is cut down to an `int`. -/
def clampRead (pos : Int) (fileLen : Nat) (len : Int) : Int :=
  if (fileLen : Int) < u64 (s32 (pos + len)) then s32 (u64 (fileLen - pos)) else len

/-- The end of `ntfs_read_r` behind its loop. -/
def endRead (file : ReadFileState) :
    Except Failure (ReadState × LoopEnd) → Except Failure (Int × ReadFileState × Option Buffer)
  | .error e => .error e
  | .ok (s, .failed) => .ok (-1, { file with pos := s.pos }, some s.buffer)
  | .ok (s, .done) => .ok (s.read, { file with pos := s.pos }, some s.buffer)

section

variable (counts : PartialCounts) (file : ReadFileState)

/-- `ntfs_read_r`: the result, the file state and the caller's buffer. -/
def ntfsReadR (ptr : Option Buffer) (len : Int) :
    Except Failure (Int × ReadFileState × Option Buffer) :=
  match file.vd, file.ni, file.dataNa with
  | true, true, some na =>
    match ptr with
    | none => .ok (0, file, none)
    | some buffer =>
      if len ≤ 0 then .ok (0, file, some buffer)
      else if file.read = false then .ok (-1, file, some buffer)
      else
        endRead file (readLoop counts na (clampRead file.pos file.len len)
          { buffer := buffer, ptr := 0, pos := file.pos, read := 0 })
  | _, _, _ => .ok (-1, file, ptr)

/-- The outcome of `NtfsReadFile` on a regular file: its status, the new
`*BufferSize`, the file state and the caller's buffer. -/
structure ReadOutcome where
  status : EfiStatus
  bufferSize : Nat
  file : ReadFileState
  buffer : Option Buffer

/-- `NtfsReadFile` on a handle of a regular file. The size is passed on as an
`int`. -/
def ntfsReadFile (bufferSize : Nat) (buffer : Option Buffer) : Except Failure ReadOutcome :=
  match ntfsReadR counts file buffer (s32 bufferSize) with
  | .error e => .error e
  | .ok (rbytes, file', buffer') =>
    if 0 ≤ rbytes then
      .ok { status := .success, bufferSize := rbytes.toNat, file := file', buffer := buffer' }
    else .ok { status := .deviceError, bufferSize := 0, file := file', buffer := buffer' }

def readInPieces (counts : PartialCounts) (file : ReadFileState) :
    List Buffer → Except Failure (List ReadOutcome)
  | [] => .ok []
  | buffer :: buffers =>
    match ntfsReadFile counts file buffer.length (some buffer) with
    | .error e => .error e
    | .ok o =>
      match readInPieces counts o.file buffers with
      | .error e => .error e
      | .ok os => .ok (o :: os)

/-! ## What the calls are to return -/

/-- The bytes a call hands to its caller. -/
def ReadOutcome.returned (o : ReadOutcome) : Buffer := (o.buffer.getD []).take o.bufferSize

def ReadOutcome.answer (o : ReadOutcome) : EfiStatus × Nat × Buffer :=
  (o.status, o.bufferSize, o.returned)

/-- A successful call that returns these bytes. -/
def answerOf (piece : Buffer) : EfiStatus × Nat × Buffer := (.success, piece.length, piece)

/-- The bytes of a request of size `n` at `pos` that lie in the file. -/
def AttrData.portion (na : AttrData) (pos n : Nat) : Nat := min n (na.size - pos)

def AttrData.pieces (na : AttrData) : Nat → List Nat → List Buffer
  | _, [] => []
  | pos, n :: sizes =>
    na.slice pos (na.portion pos n) :: na.pieces (pos + na.portion pos n) sizes

/-- The pieces make up the file from the first position on. -/
lemma AttrData.pieces_flatten :
    (na.pieces pos sizes).flatten = na.slice pos (na.portion pos sizes.sum) := by
  induction sizes generalizing pos with
  | nil => simp [pieces, portion]
  | cons n sizes ih =>
    have hsum : na.portion pos n + na.portion (pos + na.portion pos n) sizes.sum =
        na.portion pos (n + sizes.sum) := by
      unfold portion
      omega
    rw [pieces, flatten_cons, ih, na.slice_append, hsum, sum_cons]

/-- The calls return the pieces of the file, one after the other from `pos` on. -/
def ReadsPieces (na : AttrData) (pos : Nat) (buffers : List Buffer) : Prop :=
  ∃ outcomes, readInPieces counts file buffers = .ok outcomes ∧
    outcomes.map ReadOutcome.answer = (na.pieces pos (buffers.map length)).map answerOf ∧
    (outcomes.map ReadOutcome.returned).flatten =
      na.slice pos (na.portion pos (buffers.map length).sum)

end

/-! ## The state between calls -/

structure Readable (file : ReadFileState) (na : AttrData) : Prop where
  vd : file.vd = true
  ni : file.ni = true
  dataNa : file.dataNa = some na
  read : file.read = true
  len : file.len = na.size
  /-- The size of an attribute is an `s64`. -/
  size_lt : na.size < 9223372036854775808

lemma Readable.withPos {na : AttrData} (hfile : Readable file na)
    (pos : Int) : Readable { file with pos := pos } na :=
  { hfile with }

/-- The positions the code can keep: those of an `int`, and the first one behind
them when the size agrees with it in the low 32 bits. -/
def Reachable (size pos : Nat) : Prop :=
  pos < 2147483648 ∨ pos = 2147483648 ∧ size % 4294967296 = 2147483648

/-- A file whose next byte is the one at `pos`. -/
structure ReadAt (file : ReadFileState) (na : AttrData) (pos : Nat) : Prop
    extends Readable file na where
  pos_eq : file.pos = s32 pos
  le_size : pos ≤ na.size
  reachable : Reachable na.size pos

/-- The requests that are cut right: those on a file of at most 2^31 bytes, and
those that end at a position the code can keep. -/
def ReadFits (size pos n : Nat) : Prop := size ≤ 2147483648 ∨ Reachable size (pos + n)

lemma s32_u64 : s32 (u64 x) = s32 x := by
  have hdvd : ((2 ^ 32 : Nat) : Int) ∣ 18446744073709551616 := by norm_num
  unfold s32 u64 SignedBytes.wrap
  rw [← Int.emod_bmod, Int.emod_emod_of_dvd x hdvd, Int.emod_bmod]

variable {pos size n : Nat}

/-- An `int` is determined by its low 32 bits. -/
lemma s32_eq_iff :
    s32 x = t ↔ -2147483648 ≤ t ∧ t < 2147483648 ∧ t % 4294967296 = x % 4294967296 := by
  have hmod : s32 x % 4294967296 = x % 4294967296 := Int.bmod_emod
  have hrange := isS32_iff.mp (s32_isS32 x)
  constructor
  · rintro rfl
    exact ⟨hrange.1, hrange.2, hmod⟩
  · omega

/-- An `int` position stands for itself. -/
lemma s32_natCast (hpos : pos < 2147483648) : s32 pos = pos := by
  rw [s32_eq_iff]
  omega

lemma s32_two_pow : s32 ((2147483648 : Nat) : Int) = -2147483648 := by decide

lemma s32_add_s32 : s32 (s32 x + y) = s32 (x + y) := by
  rw [add_comm, s32, s32, SignedBytes.wrap_add_wrap, ← s32, add_comm]

/-- A negative `int` is larger than every file. -/
lemma lt_u64_of_neg (hsize : size < 9223372036854775808) (hneg : x < 0) (hlow : -2147483648 ≤ x) :
    (size : Int) < u64 x := by
  unfold u64
  omega

lemma u64_of_nonneg (hx : 0 ≤ x) (hmax : x < 2147483648) : u64 x = x := by
  unfold u64
  omega

/-! ## The cut at the end of the file -/

/-- A sum that stays an `int` is compared as it is. -/
lemma clampRead_small (hle : pos ≤ size) (hend : pos + n < 2147483648) :
    clampRead pos size n = (min n (size - pos) : Nat) := by
  have hsum : s32 ((pos : Int) + n) = (pos : Int) + n := by
    rw [s32_eq_iff]
    omega
  rw [clampRead, hsum, u64_of_nonneg (by omega) (by omega)]
  by_cases hover : (size : Int) < (pos : Int) + n
  · rw [if_pos hover, s32_u64, s32_eq_iff]
    omega
  · omega

/-- A sum that is negative as an `int` counts as one behind the end of the file. -/
lemma clampRead_wrapped {pos : Int} (hsize : size < 9223372036854775808)
    (hneg : s32 (pos + n) < 0) : clampRead pos size n = s32 (size - pos) := by
  have hlow := (isS32_iff.mp (s32_isS32 (pos + n))).1
  rw [clampRead, if_pos (lt_u64_of_neg hsize hneg hlow), s32_u64]

lemma s32_neg (hx : 2147483648 ≤ x % 4294967296) : s32 x < 0 := by
  have hself := s32_eq_iff.mp (rfl : s32 x = s32 x)
  omega

section Cut

variable {na : AttrData}

/-- A request that ends behind the `int` positions is cut to the low 32 bits of
the rest of the file. -/
lemma ReadAt.clampRead_far (hat : ReadAt file na pos) (hpos : pos < 2147483648)
    (hn : n < 2147483648) (hend : 2147483648 ≤ pos + n) :
    clampRead file.pos file.len n = s32 ((na.size : Int) - pos) := by
  rw [hat.pos_eq, s32_natCast hpos, hat.len]
  exact clampRead_wrapped hat.size_lt (s32_neg (by omega))

/-- Behind the `int` positions nothing more is requested. -/
lemma ReadAt.clampRead_end (hat : ReadAt file na pos) (hpos : ¬ pos < 2147483648)
    (hn : n < 2147483648) : clampRead file.pos file.len n = 0 := by
  obtain ⟨rfl, hlow⟩ := hat.reachable.resolve_left hpos
  rw [hat.pos_eq, s32_two_pow, hat.len, clampRead_wrapped hat.size_lt (s32_neg (by omega)),
    s32_eq_iff]
  omega

lemma ReadAt.clampRead_fits (hat : ReadAt file na pos) (hn : n < 2147483648)
    (hfits : ReadFits na.size pos n) : clampRead file.pos file.len n = na.portion pos n := by
  have hle := hat.le_size
  unfold ReadFits Reachable at hfits
  unfold portion
  by_cases hpos : pos < 2147483648
  · by_cases hend : pos + n < 2147483648
    · rw [hat.pos_eq, s32_natCast hpos, hat.len, clampRead_small hle hend]
    · rw [hat.clampRead_far hpos hn (by omega), s32_eq_iff]
      omega
  · rw [hat.clampRead_end hpos hn]
    omega

end Cut

/-! ## Runs of the loop -/

section Loop

variable (counts : PartialCounts) {na : AttrData}

/-- A request inside the file is served in part. -/
lemma attrPread_inside {pos m : Nat} (hm : m ≠ 0) (hend : pos + m ≤ na.size) :
    ∃ r : Nat, counts.accept pos m = r ∧ 0 < r ∧ r ≤ m ∧
      attrPread counts na pos m = some (na.slice pos r) := by
  have hpos := counts.accept_pos pos m (by omega)
  have hle := counts.accept_le pos m (by omega)
  refine ⟨(counts.accept pos m).toNat, by omega, by omega, by omega, ?_⟩
  have havail : min (m : Int).toNat (na.size - (pos : Int).toNat) = m := by omega
  rw [attrPread, if_neg (by omega)]
  rw [havail, if_neg hm, Int.toNat_natCast]

lemma readLoop_step {ptr m : Nat} {read : Int}
    (hpread : attrPread counts na p m = some (na.slice pos r)) (hr : 0 < r) (hle : r ≤ m)
    (hm : m < 2147483648) (hroom : ptr + r ≤ buffer.length) :
    readLoop counts na m { buffer := buffer, ptr := ptr, pos := p, read := read } =
      readLoop counts na (m - r : Nat)
        { buffer := splice buffer ptr (na.slice pos r), ptr := ptr + r, pos := s32 (p + r),
          read := s32 (read + r) } := by
  have hret : s32 (r : Int) = r := s32_natCast (by omega)
  rw [readLoop, if_neg (by omega), hpread]
  dsimp only
  rw [na.slice_length, if_neg (by omega), hret, if_neg (by omega), Int.toNat_natCast,
    Int.ofNat_sub hle]

/-- A request inside the file that ends at a position the code can keep is served
completely. -/
lemma readLoop_done {buffer : Buffer} {ptr pos m read : Nat} (hend : pos + m ≤ na.size)
    (hkeep : pos + m ≤ 2147483648) (hroom : ptr + m ≤ buffer.length)
    (hcount : read + m < 2147483648) :
    readLoop counts na m { buffer := buffer, ptr := ptr, pos := s32 pos, read := read } =
      .ok ({ buffer := splice buffer ptr (na.slice pos m), ptr := ptr + m,
             pos := s32 (pos + m : Nat), read := (read + m : Nat) }, .done) := by
  induction m using Nat.strongRecOn generalizing buffer ptr pos read with
  | ind m ih =>
    by_cases hzero : m = 0
    · subst hzero
      rw [readLoop, if_pos (Int.natCast_eq_zero.mpr rfl), na.slice_zero, splice_nil, add_zero,
        add_zero, add_zero]
    · obtain ⟨r, _, hr, hle, hpread⟩ := @attrPread_inside counts na pos m hzero hend
      have hlen := na.slice_length pos r
      have hroom' : ptr + r + (m - r) ≤ (splice buffer ptr (na.slice pos r)).length := by
        rw [splice_length (by omega)]
        omega
      have hrun := @ih (m - r) (by omega) _ _ (pos + r) (read + r) (by omega) (by omega) hroom'
        (by omega)
      have hsplice := splice_splice buffer (na.slice pos r) (na.slice (pos + r) (m - r))
        (by omega : ptr ≤ buffer.length)
      have hrest : r + (m - r) = m := by omega
      rw [hlen, na.slice_append] at hsplice
      rw [hsplice, add_assoc, add_assoc, add_assoc, hrest] at hrun
      have hself : s32 (pos : Int) = pos := s32_natCast (by omega)
      have hsum : s32 ((read : Int) + r) = (read + r : Nat) := by
        rw [s32_eq_iff]
        omega
      rw [hself, readLoop_step counts hpread hr hle (by clear hself hsum; omega)
        (by omega), hsum, ← Int.natCast_add, hrun]

/-- A loop that is not stopped by an error reads as much as it was asked for. -/
lemma readLoop_read (hs : IsS32 s.read)
    (hrun : readLoop counts na len s = .ok (s', .done)) : s'.read = s32 (s.read + len) := by
  fun_induction readLoop counts na len s with
  | case1 s =>
    cases hrun
    rw [add_zero, s32_of_isS32 hs]
  | case2 => cases hrun
  | case3 => cases hrun
  | case4 => cases hrun
  | case5 len s hlen bytes hpread hroom buffer ret hret ih =>
    rw [ih (s32_isS32 _) hrun, s32_add_s32]
    congr 1
    omega

end Loop

/-! ## One call -/

section Call

variable {na : AttrData}

/-- A call with room for at least one byte runs the loop on the cut request. -/
lemma Readable.readR (hfile : Readable file na) (counts : PartialCounts) {len : Int}
    (hlen : 0 < len) :
    ntfsReadR counts file (some buffer) len =
      endRead file (readLoop counts na (clampRead file.pos file.len len)
        { buffer := buffer, ptr := 0, pos := file.pos, read := 0 }) := by
  simp only [ntfsReadR, hfile.vd, hfile.ni, hfile.dataNa, hfile.read]
  rw [if_neg (by omega), if_neg (by decide)]

lemma Readable.readFile_empty (hfile : Readable file na) :
    ntfsReadFile counts file 0 (some buffer) =
      .ok { status := .success, bufferSize := 0, file := file, buffer := some buffer } := by
  have hzero : ntfsReadR counts file (some buffer) (s32 (0 : Nat)) =
      .ok (0, file, some buffer) := by
    simp only [ntfsReadR, hfile.vd, hfile.ni, hfile.dataNa]
    rw [if_pos (by decide)]
  rw [ntfsReadFile, hzero]
  rfl

/-- The outcome of a call that returns the next `n` bytes of the file. -/
def servedOutcome (file : ReadFileState) (na : AttrData) (pos n : Nat) (buffer : Buffer) :
    ReadOutcome :=
  { status := .success, bufferSize := n, file := { file with pos := s32 (pos + n : Nat) },
    buffer := some (splice buffer 0 (na.slice pos n)) }

lemma ReadFits.portion_end (hle : pos ≤ na.size) (hfits : ReadFits na.size pos n) :
    pos + na.portion pos n ≤ na.size ∧ pos + na.portion pos n ≤ 2147483648 ∧
      Reachable na.size (pos + na.portion pos n) := by
  unfold ReadFits Reachable at *
  unfold portion
  omega

lemma ReadAt.readFile_fits (hat : ReadAt file na pos) (counts : PartialCounts)
    (hsize : buffer.length < 2147483648) (hfits : ReadFits na.size pos buffer.length) :
    ntfsReadFile counts file buffer.length (some buffer) =
      .ok (servedOutcome file na pos (na.portion pos buffer.length) buffer) := by
  have hposEq := hat.pos_eq
  by_cases hempty : buffer.length = 0
  · have hzero : na.portion pos 0 = 0 := Nat.zero_min _
    have hsame : { file with pos := s32 (pos : Int) } = file := by rw [← hposEq]
    rw [hempty, hat.toReadable.readFile_empty, hzero, servedOutcome, na.slice_zero,
      splice_nil, add_zero, hsame]
  · obtain ⟨hend, hkeep, _⟩ := hfits.portion_end hat.le_size
    have hle : na.portion pos buffer.length ≤ buffer.length := min_le_left _ _
    have hdone := @readLoop_done counts na buffer 0 pos _ 0 hend hkeep (by omega) (by omega)
    have hlen : s32 (buffer.length : Int) = buffer.length := s32_natCast hsize
    rw [ntfsReadFile, hlen, hat.toReadable.readR counts (by omega),
      hat.clampRead_fits hsize hfits, hposEq]
    rw [Nat.zero_add, Int.natCast_zero] at hdone
    rw [hdone]
    dsimp only [endRead]
    rfl

lemma ReadAt.next (hat : ReadAt file na pos) (hfits : ReadFits na.size pos n) (buffer : Buffer) :
    ReadAt (servedOutcome file na pos (na.portion pos n) buffer).file na
      (pos + na.portion pos n) := by
  obtain ⟨hend, _, hreach⟩ := hfits.portion_end hat.le_size
  exact ⟨hat.toReadable.withPos _, by rw [servedOutcome], hend, hreach⟩

section

variable (file : ReadFileState) (na : AttrData) (pos n : Nat) (buffer : Buffer)

lemma servedOutcome_returned : (servedOutcome file na pos n buffer).returned = na.slice pos n := by
  have htake := splice_take_end buffer (na.slice pos n) (Nat.zero_le _)
  rw [na.slice_length, zero_add] at htake
  exact htake

lemma servedOutcome_answer :
    (servedOutcome file na pos n buffer).answer = answerOf (na.slice pos n) := by
  rw [ReadOutcome.answer, servedOutcome_returned, answerOf, na.slice_length]
  rfl

end

end Call

/-! ## Counts of one byte -/

/-- `ntfs_attr_pread` serves one byte at a time. -/
def oneByOne : PartialCounts where
  accept _ _ := 1
  accept_pos _ _ _ := by decide
  accept_le _ _ h := h

lemma attrPread_oneByOne {na : AttrData} {pos m : Nat} (havail : min m (na.size - pos) ≠ 0) :
    attrPread oneByOne na pos m = some (na.slice pos 1) := by
  rw [attrPread]
  rw [Int.toNat_natCast, Int.toNat_natCast, if_neg havail]
  rfl

/-- Byte by byte a request does not get behind the `int` positions. -/
lemma readLoop_oneByOne_stuck {na : AttrData} {read : Int}
    (hpos : pos < 2147483648) (hm : m < 2147483648) (hfar : 2147483648 < pos + m) (s' : ReadState) :
    readLoop oneByOne na m { buffer := buffer, ptr := ptr, pos := pos, read := read } ≠
      .ok (s', .done) := by
  induction m generalizing buffer ptr pos read with
  | zero => omega
  | succ m ih =>
    intro hrun
    by_cases havail : min (m + 1) (na.size - pos) = 0
    · have hnothing : attrPread oneByOne na pos (m + 1 : Nat) = some [] := by
        rw [attrPread, if_neg (by omega)]
        rw [Int.toNat_natCast, Int.toNat_natCast, if_pos havail]
      rw [readLoop, hnothing] at hrun
      dsimp only at hrun
      by_cases hroom : buffer.length < ptr + ([] : Buffer).length
      · rw [if_pos hroom] at hrun
        cases hrun
      · rw [if_neg hroom] at hrun
        cases hrun
    · have hpread := @attrPread_oneByOne na pos (m + 1) havail
      by_cases hroom : ptr + 1 ≤ buffer.length
      · rw [readLoop_step oneByOne hpread Nat.one_pos (by omega) hm hroom] at hrun
        by_cases hlast : pos + 1 < 2147483648
        · have hself : s32 ((pos : Int) + (1 : Nat)) = (pos + 1 : Nat) := by
            rw [s32_eq_iff]
            omega
          rw [hself] at hrun
          exact ih hlast (by omega) (by omega) hrun
        · -- The position has become negative, and the next request is refused.
          have hwrap : s32 ((pos : Int) + (1 : Nat)) = -2147483648 := by
            rw [s32_eq_iff]
            omega
          rw [hwrap, readLoop, if_neg (by omega)] at hrun
          cases hrun
      · rw [readLoop, if_neg (by omega), hpread] at hrun
        dsimp only at hrun
        rw [na.slice_length, if_pos (by omega)] at hrun
        cases hrun

/-! ## Calls that return what they are to return -/

section Pieces

variable {na : AttrData}

/-- A successful call has run its loop to the end. -/
lemma Readable.readFile_success (hfile : Readable file na) (hsize : buffer.length < 2147483648)
    (hne : buffer.length ≠ 0) (hrun : ntfsReadFile counts file buffer.length (some buffer) = .ok o)
    (hstatus : o.status = .success) :
    ∃ s, readLoop counts na (clampRead file.pos file.len buffer.length)
        { buffer := buffer, ptr := 0, pos := file.pos, read := 0 } = .ok (s, .done) ∧
      0 ≤ s.read ∧ o.bufferSize = s.read.toNat := by
  rw [ntfsReadFile, s32_natCast hsize, hfile.readR counts (by omega)] at hrun
  cases hloop : readLoop counts na (clampRead file.pos file.len buffer.length)
      { buffer := buffer, ptr := 0, pos := file.pos, read := 0 } with
  | error e =>
    rw [hloop] at hrun
    cases hrun
  | ok r =>
    obtain ⟨s, last⟩ := r
    rw [hloop] at hrun
    cases last with
    | failed =>
      cases hrun
      cases hstatus
    | done =>
      dsimp only [endRead] at hrun
      by_cases hread : 0 ≤ s.read
      · rw [if_pos hread] at hrun
        cases hrun
        exact ⟨s, rfl, hread, rfl⟩
      · rw [if_neg hread] at hrun
        cases hrun
        cases hstatus

/-- Byte by byte, only a request that fits returns what it is to return. -/
lemma ReadAt.fits_of_answer (hat : ReadAt file na pos) (hsize : buffer.length < 2147483648)
    (hrun : ntfsReadFile oneByOne file buffer.length (some buffer) = .ok o)
    (hanswer : o.answer = answerOf (na.slice pos (na.portion pos buffer.length))) :
    ReadFits na.size pos buffer.length := by
  have hreach := hat.reachable
  by_contra hfits
  have hne : buffer.length ≠ 0 := by
    intro hzero
    exact hfits (.inr (by rwa [hzero]))
  have hstatus : o.status = .success := congrArg Prod.fst hanswer
  have hcount : o.bufferSize = na.portion pos buffer.length := by
    have hsnd : o.bufferSize = (na.slice pos (na.portion pos buffer.length)).length :=
      congrArg (fun a => a.2.1) hanswer
    rwa [na.slice_length] at hsnd
  obtain ⟨s, hloop, hnonneg, hread⟩ := hat.toReadable.readFile_success hsize hne hrun hstatus
  have hstart : IsS32 0 := by
    rw [isS32_iff]
    decide
  have htotal := readLoop_read oneByOne hstart hloop
  rw [zero_add] at htotal
  unfold ReadFits Reachable at hfits
  unfold portion at hcount
  unfold Reachable at hreach
  by_cases hpos : pos < 2147483648
  · -- The request is cut to the low 32 bits of the rest of the file.
    have hcut := hat.clampRead_far hpos hsize (by omega)
    have hpart : s32 ((na.size : Int) - pos) = na.portion pos buffer.length := by
      rw [hcut, s32_of_isS32 (s32_isS32 _)] at htotal
      unfold portion
      omega
    rw [hcut, hpart, hat.pos_eq, s32_natCast hpos] at hloop
    by_cases hfar : 2147483648 < pos + na.portion pos buffer.length
    · have hle' : na.portion pos buffer.length ≤ buffer.length := min_le_left _ _
      exact readLoop_oneByOne_stuck hpos (by omega) hfar s hloop
    · have hmod := (s32_eq_iff.mp hpart).2.2
      unfold portion at hfar hmod
      omega
  · have hnothing := hat.clampRead_end hpos hsize
    rw [hnothing] at htotal
    have hzero : s.read = 0 := htotal
    omega

lemma readFits_cons (hle : pos ≤ na.size) :
    ReadFits na.size pos (n + total) ↔
      ReadFits na.size pos n ∧ ReadFits na.size (pos + na.portion pos n) total := by
  unfold ReadFits Reachable portion
  omega

lemma readInPieces_cons (hrun : ntfsReadFile counts file buffer.length (some buffer) = .ok o) :
    readInPieces counts file (buffer :: buffers) =
      (readInPieces counts o.file buffers).map (o :: ·) := by
  rw [readInPieces, hrun]
  dsimp only
  cases readInPieces counts o.file buffers with
  | error e => rfl
  | ok os => rfl

def AnswersPieces (counts : PartialCounts) (file : ReadFileState) (na : AttrData) (pos : Nat)
    (buffers : List Buffer) : Prop :=
  ∃ outcomes, readInPieces counts file buffers = .ok outcomes ∧
    outcomes.map ReadOutcome.answer = (na.pieces pos (buffers.map length)).map answerOf

lemma ReadAt.answersPieces_of_fits (hat : ReadAt file na pos) (counts : PartialCounts)
    (hsizes : ∀ b ∈ buffers, b.length < 2147483648)
    (hfits : ReadFits na.size pos (buffers.map length).sum) :
    AnswersPieces counts file na pos buffers := by
  induction buffers generalizing file pos with
  | nil => exact ⟨[], rfl, rfl⟩
  | cons buffer buffers ih =>
    rw [map_cons, sum_cons, readFits_cons hat.le_size] at hfits
    obtain ⟨hhead, htail⟩ := hfits
    have hrun := hat.readFile_fits counts (hsizes buffer mem_cons_self) hhead
    obtain ⟨outcomes, hrest, hanswers⟩ := ih (hat.next hhead buffer)
      (fun b hb => hsizes b (mem_cons_of_mem _ hb)) htail
    refine ⟨servedOutcome file na pos (na.portion pos buffer.length) buffer :: outcomes, ?_, ?_⟩
    · rw [readInPieces_cons hrun, hrest]
      rfl
    · rw [map_cons, map_cons, pieces, map_cons, servedOutcome_answer, hanswers]

lemma ReadAt.fits_of_answersPieces (hat : ReadAt file na pos)
    (hsizes : ∀ b ∈ buffers, b.length < 2147483648)
    (hread : AnswersPieces oneByOne file na pos buffers) :
    ReadFits na.size pos (buffers.map length).sum := by
  induction buffers generalizing file pos with
  | nil => exact .inr hat.reachable
  | cons buffer buffers ih =>
    have hsize := hsizes buffer mem_cons_self
    obtain ⟨outcomes, hrun, hanswers⟩ := hread
    rw [map_cons, sum_cons, readFits_cons hat.le_size]
    cases hcall : ntfsReadFile oneByOne file buffer.length (some buffer) with
    | error e =>
      rw [readInPieces, hcall] at hrun
      cases hrun
    | ok o =>
      rw [readInPieces_cons hcall] at hrun
      cases hrest : readInPieces oneByOne o.file buffers with
      | error e =>
        rw [hrest] at hrun
        cases hrun
      | ok os =>
        rw [hrest] at hrun
        cases hrun
        obtain ⟨hfirst, hothers⟩ := cons.inj hanswers
        have hhead := hat.fits_of_answer hsize hcall hfirst
        rw [hat.readFile_fits oneByOne hsize hhead] at hcall
        cases hcall
        exact ⟨hhead, ih (hat.next hhead buffer)
          (fun b hb => hsizes b (mem_cons_of_mem _ hb)) ⟨os, hrest, hothers⟩⟩

lemma AnswersPieces.readsPieces (hread : AnswersPieces counts file na pos buffers) :
    ReadsPieces counts file na pos buffers := by
  obtain ⟨outcomes, hrun, hanswers⟩ := hread
  refine ⟨outcomes, hrun, hanswers, ?_⟩
  have hreturned : outcomes.map ReadOutcome.returned =
      na.pieces pos (buffers.map length) := by
    have hthird := congrArg (map fun a => a.2.2) hanswers
    rw [map_map, map_map] at hthird
    exact hthird.trans (map_id _)
  rw [hreturned, na.pieces_flatten]

end Pieces

/-- A file can be read in pieces of the given sizes, whatever part of a request
`ntfs_attr_pread` serves, exactly when it has at most 2^31 bytes or the pieces end
at a position the code can keep. -/
theorem ntfsReadFile_pieces_iff {file : ReadFileState} {na : AttrData} (hfile : Readable file na)
    (hpos : 0 ≤ file.pos) (hmax : file.pos ≤ intMax) (hle : file.pos ≤ na.size)
    {buffers : List Buffer} (hsizes : ∀ b ∈ buffers, (b.length : Int) ≤ intMax) :
    (∀ counts, ReadsPieces counts file na file.pos.toNat buffers) ↔
      ReadFits na.size file.pos.toNat (buffers.map length).sum := by
  unfold intMax at hmax hsizes
  have hself : s32 (file.pos.toNat : Int) = file.pos.toNat := s32_natCast (by omega)
  have hat : ReadAt file na file.pos.toNat := by
    refine ⟨hfile, ?_, by omega, .inl (by omega)⟩
    rw [hself, Int.toNat_of_nonneg hpos]
  have hsizes' : ∀ b ∈ buffers, b.length < 2147483648 := by
    intro b hb
    have hb' := hsizes b hb
    omega
  constructor
  · intro hall
    obtain ⟨outcomes, hrun, hanswers, _⟩ := hall oneByOne
    exact hat.fits_of_answersPieces hsizes' ⟨outcomes, hrun, hanswers⟩
  · intro hfits counts
    exact (hat.answersPieces_of_fits counts hsizes' hfits).readsPieces

/-- A handle on a file with these data, opened for reading and standing at `pos`. -/
def openedAt (na : AttrData) (pos : Int) : ReadFileState where
  vd := true
  ni := true
  dataNa := some na
  read := true
  pos := pos
  len := na.size

theorem ntfsReadFile_pieces_small :
    ReadsPieces oneByOne (openedAt ⟨3, fun k => UInt8.ofNat k⟩ 1)
      ⟨3, fun k => UInt8.ofNat k⟩ 1 [[0], [0, 0], [0]] :=
  (@ntfsReadFile_pieces_iff (openedAt ⟨3, fun k => UInt8.ofNat k⟩ 1) _
    ⟨rfl, rfl, rfl, rfl, rfl, by decide⟩ (by decide) (by decide) (by decide) _ (by decide)).mpr
    (.inl (by decide)) oneByOne

/-- `ntfs_attr_pread` serves every request completely. -/
def allAtOnce : PartialCounts where
  accept _ count := count
  accept_pos _ _ h := h
  accept_le _ _ _ := le_refl _

/-- In a file of 2^31 + 1 bytes a request for the byte before 2^31 is cut to two
bytes, and the second one is stored behind the caller's buffer. -/
theorem ntfsReadFile_pieces_overrun :
    ntfsReadFile allAtOnce (openedAt ⟨2147483649, fun _ => 7⟩ 2147483647) 1 (some [0]) =
        .error .outOfBounds ∧
      ¬ ReadsPieces allAtOnce (openedAt ⟨2147483649, fun _ => 7⟩ 2147483647)
        ⟨2147483649, fun _ => 7⟩ 2147483647 [[0]] := by
  have hcut : clampRead 2147483647 2147483649 (s32 (1 : Nat)) = 2 := by decide
  have hloop : readLoop allAtOnce ⟨2147483649, fun _ => 7⟩ 2
      { buffer := [0], ptr := 0, pos := 2147483647, read := 0 } = .error .outOfBounds := by
    rw [readLoop]
    rfl
  have hcall : ntfsReadFile allAtOnce (openedAt ⟨2147483649, fun _ => 7⟩ 2147483647) 1
      (some [0]) = .error .outOfBounds := by
    have hread : Readable (openedAt ⟨2147483649, fun _ => 7⟩ 2147483647)
        ⟨2147483649, fun _ => 7⟩ := ⟨rfl, rfl, rfl, rfl, rfl, by decide⟩
    rw [ntfsReadFile, hread.readR allAtOnce (by decide)]
    dsimp only [openedAt]
    rw [hcut, hloop]
    rfl
  refine ⟨hcall, ?_⟩
  rintro ⟨outcomes, hrun, _⟩
  rw [readInPieces] at hrun
  dsimp only [length_cons, length_nil] at hrun
  rw [hcall] at hrun
  cases hrun

end NtfsDxe
