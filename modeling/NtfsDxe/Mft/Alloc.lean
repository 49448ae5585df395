import NtfsDxe.Foundation.Prog
import NtfsDxe.Record.MftRecord

/-! # Allocating mft records

`$MFT/$BITMAP` has a bit for each mft record. A free record is searched for in the
bitmap; if there is none, the first record behind the initialized ones is taken,
after the bitmap and `$MFT/$DATA` have been extended as far as needed. Whatever is
asked for on the way can fail, as the environment decides.
-/

namespace NtfsDxe

open Foundation Prog LittleEndian

/-! ## The state -/

/-- The initialized part of `$MFT/$BITMAP`, its allocated size and its runs, each with its first
cluster and its length, the initialized part of `$MFT/$DATA` as a list of records and its
allocated size, whether `$MFT` has an attribute list, `mft_data_pos`, the clusters that are in
use, and the time. It is noted which bits stay set because something could not be undone. -/
structure MftState where
  bits : List Bool
  bitmapAllocated : Nat
  bitmapRuns : List (Nat × Nat)
  records : List Buffer
  allocated : Nat
  hasAttrList : Bool
  dataPos : Nat
  used : Nat → Bool
  clock : Nat
  stale : List Nat

/-- What can be asked for: memory, the last run of an attribute, an attribute list for `$MFT`, new
mapping pairs, freeing clusters, reading the bitmap, setting and clearing a bit, writing the
bits that extend the bitmap and restoring its size, reading a record, and writing a formatted
record and the record of `$MFT`. -/
inductive MftRequest where
  | memory
  | lastRun
  | attrList
  | mappingPairs
  | clusterFree
  | bitmapRead
  | bitmapSet
  | bitmapClear
  | bitmapInit
  | bitmapRestore
  | recordRead
  | recordFormat
  | mftSync
  deriving DecidableEq

/-- How the attribute record of an attribute of `$MFT` is updated for an added run: done; not done;
not done for want of room; or done, but the sizes are not recorded. -/
inductive ExtentUpdate where
  | ok
  | error
  | noRoom
  | unrecorded

/-- The volume and what happens at which time. As many clusters as are asked for are
allocated, and they are free. -/
structure MftEnv where
  recordSize : Nat
  clusterSize : Nat
  /-- The volume's version is below 3.1. -/
  oldFormat : Bool
  fails : MftRequest → Nat → Bool
  clusterAlloc : (Nat → Bool) → Nat → Nat → Except Errno (List Nat)
  extents : Nat → ExtentUpdate
  /-- What is on the disk behind the initialized part of the bitmap. -/
  unwritten : List Bool
  clusterSize_pos : 0 < clusterSize
  clusterAlloc_free : ∀ {used n t lcns}, clusterAlloc used n t = .ok lcns →
    ∀ c ∈ lcns, used c = false
  clusterAlloc_length : ∀ {used n t lcns}, clusterAlloc used n t = .ok lcns → lcns.length = n

/-- The inode of a file other than `$MFT` for which an extent record is allocated. -/
structure ExtentBase where
  mftNo : Nat
  sequenceNumber : Nat
  nrExtents : Nat
  not_mft : mftNo ≠ 0

/-- How an operation ends without a result. -/
inductive MftError where
  | errno (code : Errno)
  | outOfBounds
  /-- The bound on the number of steps is reached. -/
  | fuel
  deriving DecidableEq

/-- An operation on `$MFT`. -/
abbrev MftM := Prog MftState MftError

def MftRequest.error : MftRequest → Errno
  | memory | bitmapRestore => .enomem
  | _ => .eio

def markClusters (lcns : List Nat) (inUse : Bool) (used : Nat → Bool) : Nat → Bool := fun c =>
  if c ∈ lcns then inUse else used c

def reservedMftRecords : Nat := 64

def magicFile : Nat := 0x454c4946

/-- The bit `MFT_RECORD_IN_USE` of the record's flags. -/
def mftRecordInUse (flags : Nat) : Bool := flags % 2 == 1

def recordMagic (m : Buffer) : Nat := read m 0 4
def usaOfs (m : Buffer) : Nat := read m 4 2
def sequenceNumber (m : Buffer) : Nat := read m 16 2

def mkMref (mftNo seqNo : Nat) : Nat := seqNo % 2 ^ 16 * 2 ^ 48 + mftNo % 2 ^ 48

section

variable (env : MftEnv)

def mftRequest (r : MftRequest) : MftM Unit := do
  let clock ← reads (·.clock)
  modify fun s => { s with clock := s.clock + 1 }
  if env.fails r clock then fail (.errno r.error)

/-- `ntfs_bitmap_set_bit` on `$MFT/$BITMAP`. -/
def setMftBit (bit : Nat) : MftM Unit := do
  mftRequest env .bitmapSet
  modify fun s => { s with bits := s.bits.set bit true }

/-- `ntfs_bitmap_clear_bit` on `$MFT/$BITMAP`. -/
def clearMftBit (bit : Nat) : MftM Unit := do
  mftRequest env .bitmapClear
  modify fun s => { s with bits := s.bits.set bit false }

/-! ## Searching the bitmap -/

/-- The first clear bit of the byte that starts at `base`. -/
def firstZero (bits : List Bool) (base : Nat) : Option Nat :=
  (List.range 8).find? fun b => bits.getD (base + b) true = false

/-- Search the byte of the position `pos`. Only its first clear bit is looked at. -/
def scanByte (bits : List Bool) (pos : Nat) : Option Nat :=
  match firstZero bits (pos / 8 * 8) with
  | some b => if pos % 8 ≤ b then some (pos / 8 * 8 + b) else none
  | none => none

def scanBytes (bits : List Bool) (passEnd : Nat) : Nat → Nat → Option Nat
  | 0, _ => none
  | bytes + 1, pos =>
    if passEnd ≤ pos then none
    else
      match scanByte bits pos with
      | some bit => some bit
      | none => scanBytes bits passEnd bytes (pos / 8 * 8 + 8)

def scanPass (passEnd : Nat) : Nat → Nat → MftM (Option Nat)
  | 0, _ => pure none
  | pages + 1, pos => do
    mftRequest env .bitmapRead
    let bits ← reads (·.bits)
    let size := min 4096 ((passEnd + 7) / 8 - pos / 8)
    match scanBytes bits passEnd size pos with
    | some bit => pure (some bit)
    | none =>
      let next := pos / 8 * 8 + size * 8
      if next < passEnd then scanPass passEnd pages next else pure none

/-- `ntfs_mft_bitmap_find_free_rec`. The result `none` is `ENOSPC`. -/
def mftBitmapFindFreeRec (base : Option ExtentBase) : MftM (Option Nat) := do
  let s ← reads id
  let passEnd := min (s.allocated / env.recordSize) s.bits.length
  let dataPos := max (base.elim s.dataPos (·.mftNo + 1)) reservedMftRecords
  if passEnd ≤ dataPos then
    if passEnd ≤ reservedMftRecords then pure none
    else do
      mftRequest env .memory
      scanPass env passEnd passEnd reservedMftRecords
  else do
    mftRequest env .memory
    let found ← scanPass env passEnd passEnd dataPos
    match found with
    | some bit => pure (some bit)
    | none =>
      if dataPos ≤ reservedMftRecords then pure none
      else scanPass env dataPos dataPos reservedMftRecords

/-! ## Extending `$MFT` -/

/-- `ntfs_cluster_alloc`, with the first of the numbers of clusters for which there is space. -/
def allocFirst : List Nat → MftM (List Nat)
  | [] => fail (.errno .enospc)
  | n :: rest => do
    let s ← reads id
    modify fun s => { s with clock := s.clock + 1 }
    match env.clusterAlloc s.used n s.clock with
    | .ok lcns => do
      modify fun s => { s with used := markClusters lcns true s.used }
      pure lcns
    | .error .enospc => if rest = [] then fail (.errno .enospc) else allocFirst rest
    | .error e => fail (.errno e)

def freeRun (lcns : List Nat) : MftM Unit := do
  mftRequest env .clusterFree
  modify fun s => { s with used := markClusters lcns false s.used }

/-- Append a cluster to runs, as `ntfs_runlists_merge` does: it joins the last run if it follows
it on the disk. -/
def appendCluster (runs : List (Nat × Nat)) (lcn : Nat) : List (Nat × Nat) :=
  match runs.getLast? with
  | some (start, length) =>
    if start + length = lcn then runs.dropLast ++ [(start, length + 1)] else runs ++ [(lcn, 1)]
  | none => runs ++ [(lcn, 1)]

/-- The end of `ntfs_mft_bitmap_extend_allocation` after a failure: the last run is dropped, and
its first cluster is freed. These are not the run and the cluster that were added if the
cluster has joined the run before. -/
def dropBitmapRun : MftM Unit := do
  let runs ← reads (·.bitmapRuns)
  match runs.getLast? with
  | none => pure ()
  | some (lcn, _) => do
    modify fun s => { s with bitmapRuns := s.bitmapRuns.dropLast }
    freeRun env [lcn]

/-- `ntfs_mft_attr_extend`: whether an attribute list was added, with which everything has to be
tried again. -/
def mftAttrExtend : MftM Bool := do
  let hasAttrList ← reads (·.hasAttrList)
  if hasAttrList then do
    mftRequest env .mappingPairs
    pure false
  else do
    mftRequest env .attrList
    modify fun s => { s with hasAttrList := true }
    pure true

/-- Extend the allocated size of an attribute of `$MFT`: `attach` adds the clusters to its runs,
`undo` takes them away again, and `grow` increases the size. The result says whether it has to
be tried again. -/
def extendAllocation (counts : List Nat) (attach : List Nat → MftState → MftState)
    (undo : List Nat → MftM Unit) (grow : Nat → MftState → MftState) : MftM Bool := do
  mftRequest env .lastRun
  let lcns ← allocFirst env counts
  let merged ← attempt (mftRequest env .memory)
  match merged with
  | .error e => do
    let _ ← attempt (freeRun env lcns)
    fail e
  | .ok _ => do
    modify (attach lcns)
    let clock ← reads (·.clock)
    modify fun s => { s with clock := s.clock + 1 }
    match env.extents clock with
    | .ok => do
      modify (grow lcns.length)
      pure false
    | .error => do
      let _ ← attempt (undo lcns)
      fail (.errno .eio)
    | .unrecorded => do
      modify (grow lcns.length)
      fail (.errno .eio)
    | .noRoom => do
      let extended ← attempt (mftAttrExtend env)
      match extended with
      | .ok false => do
        modify (grow lcns.length)
        pure false
      | .ok true => do
        let _ ← attempt (undo lcns)
        pure true
      | .error e => do
        let _ ← attempt (undo lcns)
        fail e

def mftBitmapExtendAllocation : MftM Bool :=
  extendAllocation env [1]
    (fun lcns s => { s with bitmapRuns := lcns.foldl appendCluster s.bitmapRuns })
    (fun _ => dropBitmapRun env)
    fun n s => { s with bitmapAllocated := s.bitmapAllocated + n * env.clusterSize }

/-- `min_nr` and `nr` of `ntfs_mft_data_extend_allocation`. -/
def minMftClusters : Nat := max 1 (env.recordSize / env.clusterSize)

def mftClusters : Nat :=
  if env.recordSize * 16 / env.clusterSize = 0 then minMftClusters env
  else env.recordSize * 16 / env.clusterSize

def mftDataExtendAllocation : MftM Bool :=
  extendAllocation env
    (if mftClusters env = minMftClusters env then [minMftClusters env]
      else [mftClusters env, minMftClusters env])
    (fun _ s => s) (freeRun env)
    fun n s => { s with allocated := s.allocated + n * env.clusterSize }

/-- The positions of the bits that are set, counted from `base`. -/
def setPositions (base : Nat) (bits : List Bool) : List Nat :=
  ((List.range bits.length).filter fun i => bits.getD i false).map (base + ·)

/-- `ntfs_mft_bitmap_extend_initialized`: eight bytes of zeros. If they cannot be written and the
size cannot be restored, the bitmap has the bits that are on the disk. -/
def mftBitmapExtendInitialized : MftM Unit := do
  mftRequest env .memory
  let old ← reads (·.bits)
  let written ← attempt (mftRequest env .bitmapInit)
  match written with
  | .ok _ => modify fun s => { s with bits := old ++ List.replicate 64 false }
  | .error e => do
    modify fun s => { s with bits := old ++ env.unwritten }
    let restored ← attempt (mftRequest env .bitmapRestore)
    match restored with
    | .ok _ => do
      modify fun s => { s with bits := old }
      fail e
    | .error _ => do
      modify fun s => { s with stale := setPositions old.length env.unwritten ++ s.stale }
      fail e

def chooseMftRecord (base : Option ExtentBase) : MftM Nat := do
  let found ← mftBitmapFindFreeRec env base
  match found with
  | some bit => pure bit
  | none => do
    let s ← reads id
    if s.records.length < s.bits.length ∧ reservedMftRecords < s.bits.length then
      pure (max s.records.length reservedMftRecords)
    else do
      if s.bitmapAllocated < s.bits.length / 8 + 8 then do
        let again ← mftBitmapExtendAllocation env
        if again then do
          let again ← mftBitmapExtendAllocation env
          if again then fail (.errno .eio)
      let bit ← reads (·.bits.length)
      mftBitmapExtendInitialized env
      pure bit

/-! ## Formatting records -/

/-- `attrs_offset` of a new record: the header and the update sequence array. -/
def newAttrsOffset : Nat :=
  align8 ((if env.oldFormat then 42 else 48) +
    2 * (if 512 ≤ env.recordSize then env.recordSize / 512 + 1 else 1))

def newRecordFields (mref : Nat) : List Field :=
  (if env.oldFormat then [] else [⟨42, 2, 0⟩, ⟨44, 4, mref⟩]) ++
    [⟨4, 2, if env.oldFormat then 42 else 48⟩, ⟨0, 4, magicFile⟩,
      ⟨6, 2, if 512 ≤ env.recordSize then env.recordSize / 512 + 1 else 1⟩,
      ⟨if env.oldFormat then 42 else 48, 2, 1⟩, ⟨8, 8, 0⟩, ⟨16, 2, 1⟩, ⟨18, 2, 0⟩,
      ⟨20, 2, newAttrsOffset env⟩, ⟨22, 2, 0⟩, ⟨24, 4, align8 (newAttrsOffset env + 8)⟩,
      ⟨28, 4, env.recordSize⟩, ⟨32, 8, 0⟩, ⟨40, 2, 0⟩, ⟨newAttrsOffset env, 4, atEnd⟩,
      ⟨newAttrsOffset env + 4, 4, 0⟩]

def mftRecordLayout (mref : Nat) (m : Buffer) : Except Errno Buffer :=
  if env.oldFormat = false ∧ mref % 2 ^ 48 / 2 ^ 32 ≠ 0 then .error .erange
  else
    .ok (splice (writeFields m 0 (newRecordFields env mref)) (newAttrsOffset env + 8)
      (List.replicate (env.recordSize - (newAttrsOffset env + 8)) 0))

/-- `ntfs_mft_record_format` of the next record behind the initialized ones. -/
def mftRecordFormat : MftM Unit := do
  mftRequest env .memory
  let bit ← reads (·.records.length)
  match mftRecordLayout env bit (List.replicate env.recordSize 0) with
  | .error e => fail (.errno e)
  | .ok m => do
    mftRequest env .recordFormat
    modify fun s => { s with records := s.records ++ [m] }

/-- Extend the allocated size of `$MFT/$DATA` to a number of records. -/
def mftDataAllocate (count : Nat) : Nat → MftM Unit
  | 0 => fail .fuel
  | fuel + 1 => do
    let s ← reads id
    if s.allocated < count * env.recordSize then do
      let _ ← mftDataExtendAllocation env
      mftDataAllocate count fuel

/-- Format records until there are `count` more. -/
def mftFormatRecords : Nat → MftM Unit
  | 0 => pure ()
  | count + 1 => do
    mftRecordFormat env
    mftFormatRecords count

def mftRecordInit (count fuel : Nat) : MftM Unit := do
  mftDataAllocate env count fuel
  let old ← reads (·.records)
  let r ← attempt (do
    mftFormatRecords env (count - old.length)
    mftRequest env .memory
    mftRequest env .mftSync)
  match r with
  | .ok _ => pure ()
  | .error e => do
    modify fun s => { s with records := s.records.take old.length }
    fail e

/-! ## Allocating a record -/

/-- The record is laid out anew. It keeps its sequence number and its update sequence number,
unless these are zero, or -1 for the latter. -/
def reformatted (bit : Nat) (m : Buffer) (usn : Nat) : Except Errno Buffer :=
  match mftRecordLayout env bit m with
  | .error e => .error e
  | .ok n =>
    let n := if sequenceNumber m = 0 then n else write n 16 2 (sequenceNumber m)
    let n := if usn = 0 ∨ usn = 0xffff then n else write n (usaOfs n) 2 usn
    .ok (write n 22 2 (recordFlags n ||| 1))

/-- Make the record an extent of its base. The list of the base's extents grows by four. -/
def attachExtent (b : ExtentBase) (m : Buffer) : MftM Buffer := do
  if b.nrExtents % 4 = 0 then mftRequest env .memory
  pure (write m 32 8 (mkMref b.mftNo b.sequenceNumber))

/-- Read and format the record of a bit that has been set. There is no result if the record
turns out to be in use. -/
def readMftRecord (base : Option ExtentBase) (bit : Nat) : MftM (Option Buffer) := do
  mftRequest env .memory
  mftRequest env .recordRead
  let m ← reads (·.records.getD bit [])
  if recordMagic m = magicFile ∧ mftRecordInUse (recordFlags m) = true then pure none
  else
    match readAt m (usaOfs m) 2 with
    | .error _ => fail .outOfBounds
    | .ok usn =>
      match reformatted env bit m usn with
      | .error e => fail (.errno e)
      | .ok m => do
        mftRequest env .memory
        match base with
        | none => pure (some m)
        | some b => do
          let m ← attachExtent env b m
          pure (some m)

def openMftRecord (base : Option ExtentBase) (bit fuel : Nat) : MftM (Option Buffer) := do
  let s ← reads id
  if s.records.length < bit + 1 then mftRecordInit env (bit + 1) fuel
  readMftRecord env base bit

/-- `ntfs_mft_record_alloc`: the number and the contents of the record. -/
def mftRecordAlloc (base : Option ExtentBase) : Nat → MftM (Nat × Buffer)
  | 0 => fail .fuel
  | fuel + 1 => do
    let bit ← chooseMftRecord env base
    setMftBit env bit
    let opened ← attempt (openMftRecord env base bit fuel)
    match opened with
    | .ok (some m) => do
      modify fun s => { s with dataPos := base.elim (bit + 1) fun _ => s.dataPos }
      pure (bit, m)
    | .ok none => mftRecordAlloc base fuel
    | .error e => do
      let cleared ← attempt (clearMftBit env bit)
      match cleared with
      | .ok _ => fail e
      | .error _ => do
        modify fun s => { s with stale := bit :: s.stale }
        fail e

end

end NtfsDxe
