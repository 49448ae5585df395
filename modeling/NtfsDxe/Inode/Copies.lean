import Mathlib.Logic.Function.Basic
import Mathlib.Tactic.SplitIfs

/-! # Inodes in memory

`ntfs_inode_open` reads an inode from the disk unless its number is in the cache of closed
inodes, and `ntfs_inode_close` enters the number into that cache. The entries of the cache
have a field for the address of the inode, but only the number is copied into them, so the
inode itself is lost when it is closed, and an inode whose number is in the cache cannot be
opened. An inode that is synchronised with changed file name data updates the entries of its
names, for which the directories that hold them are opened and closed in the same way.
-/

namespace NtfsDxe

open Function

/-- A reference to an mft record. A sequence number of 0 is not checked. -/
structure MftRef where
  mftNo : Nat
  seqNo : UInt16

/-! ## The cache -/

/-- `struct CACHED_NIDATA`: the number of an inode and its address. -/
structure CachedNidata where
  inum : Nat
  ni : Option Nat

def cacheNidataSize : Nat := 64

/-- `ntfs_inode_nidata_hash`. -/
def nidataHash (inum : Nat) : Nat := inum % (2 * cacheNidataSize)

/-- `struct CACHE_HEADER` of the inode cache. `recent` links the entries in use from the most
recent one to the oldest one; `chains` links them by their hash values. -/
structure NidataCache where
  entry : Nat → CachedNidata
  recent : List Nat
  free : List Nat
  chains : Nat → List Nat
  freeHash : Nat
  dohash : Bool

namespace NidataCache

/-- `ntfs_create_cache`: the memory for the entries is zeroed. -/
def create : NidataCache where
  entry := fun _ => ⟨0, none⟩
  recent := []
  free := List.range cacheNidataSize
  chains := fun _ => []
  freeHash := cacheNidataSize
  dohash := true

variable (c : NidataCache)

def search (inum : Nat) : Option Nat :=
  (if c.dohash then c.chains (nidataHash inum) else c.recent).find? fun i =>
    (c.entry i).inum = inum

/-- `ntfs_fetch_cache`: an entry that is found becomes the most recent one. -/
def fetchCache (inum : Nat) : NidataCache × Option Nat :=
  match c.search inum with
  | some i => ({ c with recent := i :: c.recent.erase i }, some i)
  | none => (c, none)

/-- `inserthashindex`. -/
def insertHashIndex (i : Nat) : NidataCache :=
  if c.dohash then
    if 0 < c.freeHash then
      let h := nidataHash (c.entry i).inum
      { c with chains := update c.chains h (i :: c.chains h), freeHash := c.freeHash - 1 }
    else { c with dohash := false }
  else c

/-- `drophashindex`. -/
def dropHashIndex (i : Nat) : NidataCache :=
  if c.dohash then
    let h := nidataHash (c.entry i).inum
    if i ∈ c.chains h then
      { c with chains := update c.chains h ((c.chains h).erase i), freeHash := c.freeHash + 1 }
    else { c with dohash := false }
  else c

/-- `do_invalidate`, without the call of `dofree`. -/
def doInvalidate (i : Nat) : NidataCache :=
  { c with recent := c.recent.erase i, free := i :: c.free }

/-- `ntfs_remove_cache`. -/
def removeCache (i : Nat) : NidataCache := (c.dropHashIndex i).doInvalidate i

/-- The entry that is taken for a new number, and whether it has been in use: a free one or
else the oldest one. -/
def takeEntry : NidataCache × Option (Nat × Bool) :=
  match c.free with
  | i :: free => ({ c with free := free }, some (i, false))
  | [] =>
    match c.recent.getLast? with
    | some i => ({ c.dropHashIndex i with recent := c.recent.erase i }, some (i, true))
    | none => (c, none)

/-- Copy `item` into the entry `i` and link it. `fixed_size` is the size of an entry less that
of `struct CACHED_GENERIC`, whose `payload` has one element already, so that the copy that
starts at `payload` ends before the address of the inode. -/
def fill (i : Nat) (item : CachedNidata) : NidataCache :=
  { c with
    entry := update c.entry i { c.entry i with inum := item.inum }
    recent := i :: c.recent }.insertHashIndex i

/-- The entries of a list that have a number. -/
def having (inum : Nat) (l : List Nat) : List Nat :=
  l.filter fun i => (c.entry i).inum = inum

/-! No operation stores the address of an inode. -/

variable {c}

lemma ni_fetchCache (i : Nat) : ((c.fetchCache n).1.entry i).ni = (c.entry i).ni := by
  rw [fetchCache]
  split <;> rfl

lemma ni_insertHashIndex (i : Nat) : ((c.insertHashIndex j).entry i).ni = (c.entry i).ni := by
  rw [insertHashIndex]
  split_ifs <;> rfl

lemma ni_dropHashIndex (i : Nat) : ((c.dropHashIndex j).entry i).ni = (c.entry i).ni := by
  rw [dropHashIndex]
  dsimp only
  split_ifs <;> rfl

lemma ni_takeEntry (i : Nat) : (c.takeEntry.1.entry i).ni = (c.entry i).ni := by
  rw [takeEntry]
  split
  · rfl
  · split
    · exact ni_dropHashIndex i
    · rfl

lemma ni_fill (i : Nat) : ((c.fill j item).entry i).ni = (c.entry i).ni := by
  rw [fill, ni_insertHashIndex]
  dsimp only
  by_cases hij : i = j
  · rw [hij, update_self]
  · rw [update_of_ne hij]

end NidataCache

/-! ## Records -/

/-- What the inode functions use of the records of files. A record of type `α` includes
the extents and the attribute list of its file, `ν` identifies its file names. -/
structure RecordOps (α ν : Type*) where
  inUse : α → Bool
  /-- `MFT_RECORD_IS_4`. -/
  is4 : α → Bool
  hasAttrList : α → Bool
  fileNames : α → List ν
  parent : ν → MftRef
  seqNo : α → UInt16
  /-- Store the times and flags of the inode in `STANDARD_INFORMATION`. -/
  syncStandard : α → α
  /-- Update the entry of a file name of a file in the record of a directory. There is no
  new record if the entry is in an index block, which is written at once. -/
  updateEntry : ν → α → α → Option α
  /-- Store the allocated size in a file name of a file. -/
  setNameSize : ν → α → α

variable {α ν : Type*}

/-! ## The store -/

/-- An `ntfs_inode` in memory with its flags. -/
@[ext]
structure InodeCopy (α : Type*) where
  mftNo : Nat
  record : α
  dirty : Bool
  attrListDirty : Bool
  fileNameDirty : Bool

/-- The disk, the inodes by address that something can still reach, and the cache of the
closed ones. `io` has the results of the next accesses to the disk; those it does not have
succeed. -/
structure InodeStore (α : Type*) where
  disk : Nat → α
  inodes : Nat → Option (InodeCopy α)
  next : Nat
  cache : NidataCache
  cacheReady : Bool
  io : List Bool

namespace InodeStore

def mounted (disk : Nat → α) (cacheReady : Bool) : InodeStore α where
  disk := disk
  inodes := fun _ => none
  next := 0
  cache := .create
  cacheReady := cacheReady
  io := []

def access (s : InodeStore α) : InodeStore α × Bool :=
  match s.io with
  | [] => (s, true)
  | ok :: io => ({ s with io := io }, ok)

section

variable (s : InodeStore α) (a : Nat)

def put (ni : InodeCopy α) : InodeStore α :=
  { s with inodes := update s.inodes a (some ni) }

def alter (f : InodeCopy α → InodeCopy α) : InodeStore α :=
  { s with inodes := update s.inodes a ((s.inodes a).map f) }

lemma alter_eq_put {s : InodeStore α} {a : Nat} (hni : s.inodes a = some ni) :
    s.alter a f = s.put a (f ni) := by
  rw [alter, hni]
  rfl

/-- `__ntfs_inode_release`. -/
def release : InodeStore α :=
  { s with inodes := update s.inodes a none }

/-- A new inode with the record of `n` on the disk. -/
def load (s : InodeStore α) (n : Nat) : InodeStore α :=
  { s with
    inodes := update s.inodes s.next (some ⟨n, s.disk n, false, false, false⟩)
    next := s.next + 1 }

/-- The record of the inode at `a` is written, which makes the inode clean. -/
def writeBack (ni : InodeCopy α) : InodeStore α :=
  { s with
    disk := update s.disk ni.mftNo ni.record
    inodes := update s.inodes a (some { ni with dirty := false }) }

end

/-! ## Opening -/

variable (ops : RecordOps α ν)

/-- The check in `ntfs_file_record_read` fails. -/
def refused (s : InodeStore α) (ref : MftRef) : Prop :=
  ref.seqNo ≠ 0 ∧ ref.seqNo ≠ ops.seqNo (s.disk ref.mftNo)

instance (s : InodeStore α) (ref : MftRef) : Decidable (s.refused ops ref) :=
  inferInstanceAs (Decidable (_ ∧ _))

/-- `ntfs_inode_real_open`: it refuses a record that is not in use. The record is read before
its sequence number is checked. -/
def realOpen (s : InodeStore α) (ref : MftRef) : InodeStore α × Option Nat :=
  match s.access with
  | (s, false) => (s, none)
  | (s, true) =>
    if s.refused ops ref then (s, none)
    else if ops.inUse (s.disk ref.mftNo) then (s.load ref.mftNo, some s.next)
    else (s, none)

/-- `ntfs_inode_open`. An inode that is open is not kept in the cache, which is searched by
the number of the record. -/
def inodeOpen (s : InodeStore α) (ref : MftRef) : InodeStore α × Option Nat :=
  match s.cache.fetchCache ref.mftNo with
  | (cache, some i) => ({ s with cache := cache.removeCache i }, (cache.entry i).ni)
  | (cache, none) => realOpen ops { s with cache := cache } ref

/-! ## Closing

The functions that close inodes use the function that synchronises them, which closes
directories in its turn. -/

section Close

variable (sync : InodeStore α → Nat → InodeStore α × Bool)

/-- `ntfs_inode_real_close`: an inode that could not be synchronised is not released. -/
def realClose (s : InodeStore α) (a : Nat) : InodeStore α × Bool :=
  match s.inodes a with
  | none => (s, true)
  | some ni =>
    if ni.dirty || ni.attrListDirty then
      let synced := sync s a
      if synced.2 then (synced.1.release a, true) else (synced.1, false)
    else (s.release a, true)

/-- `ntfs_inode_nidata_free` of the entry `i`. -/
def nidataFree (s : InodeStore α) (i : Nat) : InodeStore α :=
  match (s.cache.entry i).ni with
  | none => s
  | some a => (s.realClose sync a).1

/-- `ntfs_enter_cache`. -/
def enterCache (s : InodeStore α) (item : CachedNidata) : InodeStore α :=
  match s.cache.search item.inum with
  | some _ => s
  | none =>
    match s.cache.takeEntry with
    | (_, none) => s
    | (cache, some (i, used)) =>
      let s := { s with cache := cache }
      let s := if used then s.nidataFree sync i else s
      { s with cache := s.cache.fill i item }

/-- One round of `ntfs_invalidate_cache`. -/
def invalidateEntry (s : InodeStore α) (i : Nat) : InodeStore α :=
  let s := { s with cache := s.cache.dropHashIndex i }.nidataFree sync i
  { s with cache := s.cache.doInvalidate i }

/-- `ntfs_inode_invalidate`. The list of all entries is searched if hashing has been given
up, be it in the rounds along the chain. -/
def invalidate (s : InodeStore α) (n : Nat) : InodeStore α :=
  let s := if s.cache.dohash then
      (s.cache.having n (s.cache.chains (nidataHash n))).foldl (invalidateEntry sync) s
    else s
  if s.cache.dohash then s
  else (s.cache.having n s.cache.recent).foldl (invalidateEntry sync) s

/-- The root directory and the user files, unless they have the `IS_4` flag. -/
def cacheable (s : InodeStore α) (ni : InodeCopy α) : Bool :=
  s.cacheReady && (ni.mftNo = 5 || (16 ≤ ni.mftNo && !ops.is4 ni.record))

/-- `ntfs_inode_close`. The address of an inode is not kept by the cache, so nothing reaches
the inode any more. -/
def inodeClose (s : InodeStore α) (a : Nat) : InodeStore α × Bool :=
  match s.inodes a with
  | none => (s, true)
  | some ni =>
    if s.cacheable ops ni then
      if ni.dirty || ni.attrListDirty then
        let synced := sync s a
        if synced.2 then ((synced.1.enterCache sync ⟨ni.mftNo, some a⟩).release a, true)
        else ((synced.1.realClose sync a).1, false)
      else ((s.enterCache sync ⟨ni.mftNo, some a⟩).release a, true)
    else s.realClose sync a

end Close

/-! ## Synchronising -/

section Sync

variable (close : InodeStore α → Nat → InodeStore α × Bool)

section

variable (s : InodeStore α)

/-- `ntfs_inode_sync_standard_information`, which marks the inode dirty. -/
def syncStandardInformation (a : Nat) (ni : InodeCopy α) : InodeStore α × Bool :=
  if ops.inUse ni.record then
    match s.access with
    | (s, false) => (s, false)
    | (s, true) =>
      (s.put a { ni with record := ops.syncStandard ni.record, dirty := true }, true)
  else (s, true)

/-- Look up the entry of a file name of the inode at `a` in the index of the inode at `d`
and update it. -/
def updateIndex (a d : Nat) (name : ν) : InodeStore α × Bool :=
  match s.access with
  | (s, false) => (s, false)
  | (s, true) =>
    match s.inodes a, s.inodes d with
    | some ni, some dir =>
      let s := match ops.updateEntry name ni.record dir.record with
        | some r => s.put d { dir with record := r, dirty := true }
        | none => s
      (s.alter a fun ni => { ni with record := ops.setNameSize name ni.record }, true)
    | _, _ => (s, false)

/-- One round of `ntfs_inode_sync_file_name`, for the inode `n` at address `a`. -/
def syncName (a n : Nat) (name : ν) : InodeStore α × Bool :=
  if (ops.parent name).mftNo = n then s.updateIndex ops a a name
  else
    match s.inodeOpen ops (ops.parent name) with
    | (s, none) => (s, false)
    | (s, some d) =>
      let updated := s.updateIndex ops a d name
      let closed := close updated.1 d
      (closed.1, updated.2 && closed.2)

/-- `ntfs_inode_sync_file_name`: an error does not end the loop. -/
def syncFileName (a n : Nat) : InodeStore α → List ν → InodeStore α × Bool
  | s, [] => (s, true)
  | s, name :: names =>
    let first := s.syncName ops close a n name
    let rest := syncFileName a n first.1 names
    (rest.1, first.2 && rest.2)

/-- Update the entries of the file names if they are to be updated. -/
def syncFileNames (a : Nat) : InodeStore α × Bool :=
  match s.inodes a with
  | none => (s, true)
  | some ni =>
    if ops.inUse ni.record && ni.fileNameDirty then
      let synced := syncFileName ops close a ni.mftNo
        (s.put a { ni with fileNameDirty := false }) (ops.fileNames ni.record)
      if synced.2 then synced
      else (synced.1.alter a fun ni => { ni with fileNameDirty := true }, false)
    else (s, true)

def syncAttrList (a : Nat) : InodeStore α × Bool :=
  match s.inodes a with
  | none => (s, true)
  | some ni =>
    if ops.inUse ni.record && ops.hasAttrList ni.record && ni.attrListDirty then
      match s.access with
      | (s, true) => (s.put a { ni with attrListDirty := false }, true)
      | (s, false) => (s, false)
    else (s, true)

def syncRecord (a : Nat) : InodeStore α × Bool :=
  match s.inodes a with
  | none => (s, true)
  | some ni =>
    if ni.dirty then
      match s.access with
      | (s, true) => (s.writeBack a ni, true)
      | (s, false) => (s, false)
    else (s, true)

/-- `ntfs_inode_sync`: an error in a step does not keep the later steps from being
made. -/
def syncSteps (a : Nat) : InodeStore α × Bool :=
  match s.inodes a with
  | none => (s, false)
  | some ni =>
    let standard := s.syncStandardInformation ops a ni
    let names := standard.1.syncFileNames ops close a
    let list := names.1.syncAttrList ops a
    let record := list.1.syncRecord a
    (record.1, standard.2 && names.2 && list.2 && record.2)

end

end Sync

/-- `ntfs_inode_sync`, up to a depth of calls that close directories within it. -/
def inodeSync : Nat → InodeStore α → Nat → InodeStore α × Bool
  | 0 => fun s _ => (s, false)
  | depth + 1 => syncSteps ops (inodeClose ops (inodeSync depth))

end InodeStore

end NtfsDxe
