import NtfsDxe.Driver.State

/-! # The entry points of the driver

Opening, reading, closing and deleting through the file protocol, and giving up
the volume. Access times are not updated: the volume is mounted without the flag
that asks for it.
-/

namespace NtfsDxe

open Foundation.IntrusiveList

def oRdonly : Nat := 0x0000
def oWronly : Nat := 0x0001
def oRdwr : Nat := 0x0002
def oCreat : Nat := 0x0100
def oAppend : Nat := 0x1000

def efiFileModeRead : UInt64 := 0x0000000000000001
def efiFileModeWrite : UInt64 := 0x0000000000000002
def efiFileModeCreate : UInt64 := 0x8000000000000000

def efiFileReadOnly : UInt64 := 0x01
def efiFileDirectory : UInt64 := 0x10
def efiFileValidAttr : UInt64 := 0x37

def fileRoot : Nat := 5
def fileFirstUser : Nat := 16

def sizeofEfiFileInfo : Nat := 88

/-- The `EFI_STATUS` codes that the calls return. -/
inductive CallStatus where
  | success
  | invalidParameter
  | volumeCorrupted
  | deviceError
  | notFound
  | bufferTooSmall
  | warnDeleteFailure
  deriving DecidableEq

/-! ## Files -/

namespace NtfsFileState

def setMode (s : NtfsFileState) (flags : Nat) : NtfsFileState :=
  { s with
    flags := flags
    read := flags &&& 0x03 == oRdonly || flags &&& 0x03 == oRdwr
    write := flags &&& 0x03 == oWronly || flags &&& 0x03 == oRdwr
    append := flags &&& 0x03 != oRdonly && flags &&& oAppend != 0 }

def setKind (s : NtfsFileState) (ni : NtfsInode) (data : DataAttr) : NtfsFileState :=
  { s with
    compressed := data.compressed || ni.compressed
    encrypted := data.encrypted || ni.encrypted }

/-- The fields that `ntfsCloseFile` of the file layer resets. -/
def reset (s : NtfsFileState) : NtfsFileState :=
  { s with
    ni := none, dataNa := none, flags := 0
    read := false, write := false, append := false
    pos := 0, len := 0 }

end NtfsFileState

namespace Driver

section

variable (d : Driver)

/-- The end of `ntfs_open_r`: the file becomes the first of the open files. -/
def insertOpenFile (f : Nat) : Driver :=
  let d :=
    match d.firstOpenFile with
    | some g =>
      let d := d.modifyFile f fun s => { s with nextOpenFile := some g }
      d.modifyFile g fun s => { s with prevOpenFile := some f }
    | none => d.modifyFile f fun s => { s with nextOpenFile := none }
  { d.modifyFile f fun s => { s with prevOpenFile := none } with
    firstOpenFile := some f
    openFileCount := d.openFileCount + 1 }

/-- The end of `ntfs_close_r`: the file is taken out by its own links. -/
def removeOpenFile (f : Nat) : Driver :=
  let file := d.files f
  let d := { d with openFileCount := d.openFileCount - 1 }
  let d :=
    match file.nextOpenFile with
    | some g => d.modifyFile g fun s => { s with prevOpenFile := file.prevOpenFile }
    | none => d
  match file.prevOpenFile with
  | some g => d.modifyFile g fun s => { s with nextOpenFile := file.nextOpenFile }
  | none => { d with firstOpenFile := file.nextOpenFile }

/-- The part of `ntfs_open_r` after the data attribute has been opened. -/
def openData (f r : Nat) (data : DataAttr) : Driver × Bool :=
  let ni := d.inodes r
  let d := d.modifyFile f fun s => s.setKind ni data
  if (d.files f).encrypted then (d, false)
  else if ni.readOnly && (d.files f).write then (d, false)
  else
    let d := d.modifyFile f fun s => { s with pos := 0, len := data.dataSize }
    (d.insertOpenFile f, true)

/-- `ntfs_open_r` for a state whose inode `r` has been set by the caller. `data` is the
data attribute, if it can be opened. The driver never asks for truncation. -/
def openR (f r : Nat) (flags : Nat) (data : Option DataAttr) : Driver × Bool :=
  let d := d.modifyFile f fun s => s.setMode flags
  match data with
  | none => (d.modifyFile f fun s => { s with dataNa := none }, false)
  | some data =>
    match d.attrOpen with
    | (d, a) => (d.modifyFile f fun s => { s with dataNa := some a }).openData f r data

/-- `ntfsCloseFile` of the file layer. -/
def closeFileState (f : Nat) : Driver := d.modifyFile f fun s => s.reset

def closeR (f : Nat) : Driver := (d.closeFileState f).removeOpenFile f

/-- The loop of `ntfs_read_r`, where `rets` are the results of `ntfs_attr_pread`; it fails
when they end. -/
def preadLoop (d : Driver) (f : Nat) : (len : Nat) → List Nat → Driver × Bool
  | 0, _ => (d, true)
  | _ + 1, [] => (d, false)
  | len + 1, ret :: rets =>
    if ret = 0 ∨ len + 1 < ret then (d, false)
    else (d.modifyFile f fun s => { s with pos := s.pos + ret }).preadLoop f (len + 1 - ret) rets

/-- `ntfs_read_r`: the result tells whether it succeeded. -/
def readR (f : Nat) (len : Nat) (rets : List Nat) : Driver × Bool :=
  let file := d.files f
  match file.ni, file.dataNa with
  | some _, some _ =>
    if len = 0 then (d, true)
    else if !file.read then (d, false)
    else
      let len := if file.len < file.pos + len then file.len - file.pos else len
      d.preadLoop f len rets
  | _, _ => (d, false)

/-! ## Directories -/

def openAndClose (d : Driver) : List NtfsInode → Driver
  | [] => d
  | ni :: nis =>
    match d.inodeOpen (some ni) with
    | (d, _) => d.openAndClose nis

def closeDir (s : Nat) : Driver :=
  d.modifyDir s fun dir => { dir with ni := none, first := [], current := [] }

end

end Driver

/-- What `ntfs_readdir` does: the inodes that its callback opens, and the entries that it
lists, if it succeeds. -/
structure Listing where
  opened : List NtfsInode
  entries : Option (List NtfsDirEntry)
  deriving DecidableEq

namespace Driver

/-- `ntfs_diropen_r` for a directory state whose inode is `r`. -/
def diropenR (d : Driver) (s r : Nat) (listing : Listing) : Driver :=
  let d := d.openAndClose listing.opened
  match listing.entries with
  | none => d.closeDir s
  | some entries =>
    let d := d.modifyDir s fun dir =>
      { dir with first := entries, current := entries, nextOpenDir := d.firstOpenDir }
    let d :=
      match d.firstOpenDir with
      | some g => d.modifyDir g fun dir => { dir with prevOpenDir := some s }
      | none => d
    { d.modifyDir s fun dir => { dir with prevOpenDir := none } with
      cwdNi := some r
      firstOpenDir := some s
      openDirCount := d.openDirCount + 1 }

def describeEntry (d : Driver) (ni : Option NtfsInode) (data : Bool) : Driver :=
  match d.inodeOpen ni with
  | (d, none) => d
  | (d, some _) => if data then d.attrOpen.1 else d

end Driver

/-- A call of `Read` and what happens in it: the results of `ntfs_attr_pread` for a file;
for a directory the listings that are made, and whether the inode of the entry and
its data attribute can be opened. -/
structure ReadRequest where
  bufferSize : Nat
  rets : List Nat
  listing : Listing
  secondListing : Listing
  entry : Option NtfsInode
  entryData : Bool

namespace Driver

def setHandle (d : Driver) (h : Nat) (file : Option IFile) : Driver :=
  { d with handles := Function.update d.handles h file }

/-- The part of `NtfsReadDirectory` that makes sure that the directory has been listed;
the result is the address of the directory state. -/
def listDirectory (d : Driver) (h : Nat) (file : IFile) (q : ReadRequest) : Driver × Nat :=
  let (d, s) :=
    match file.state with
    | some s => (d, s)
    | none =>
      let s := d.next
      let d := { d with
        next := d.next + 1
        dirs := Function.update d.dirs s { ni := some file.inode } }
      ((d.setHandle h (some { file with state := some s })).diropenR s file.inode q.listing, s)
  if (d.dirs s).current = [] ∧ (d.dirs s).ni = none then
    -- the first reading, or one after a failed listing: the inode is that of the handle
    ((d.modifyDir s fun dir => { dir with ni := some file.inode }).diropenR s file.inode
      (if file.state = none then q.secondListing else q.listing), s)
  else (d, s)

def readDirectory (d : Driver) (h : Nat) (file : IFile) (q : ReadRequest) : Driver × CallStatus :=
  if file.position < 0 then (d, .notFound)
  else
    match d.listDirectory h file q with
    | (d, s) =>
      match (d.dirs s).current with
      | [] => (d, .success)
      | entry :: rest =>
        if q.bufferSize < sizeofEfiFileInfo + (entry.name.length + 1) * 2 then
          (d, .bufferTooSmall)
        else
          let d := d.describeEntry q.entry q.entryData
          -- `ntfs_dirnext_r`
          let d := d.modifyDir s fun dir => { dir with current := rest }
          let file := { file with state := some s, position := file.position + 1 }
          (d.setHandle h (some file), .success)

end Driver

/-! ## Handles -/

/-- A call of `Open` and what happens in it. -/
structure OpenRequest where
  openMode : UInt64
  attributes : UInt64
  /-- The name is one of those that `NtfsOpenFile` takes for the root directory. -/
  rootPath : Bool
  root : Option NtfsInode
  entry : List Hop
  /-- The way to the directory in which the file is created. -/
  parent : List Hop
  created : Option NtfsInode
  data : Option DataAttr

/-- What a call returns, and what its caller does not see: the file state that was given
to `ntfs_open_r`, and whether the latter succeeded. -/
structure Returned where
  status : CallStatus
  openResult : Option (Nat × Bool) := none

namespace OpenRequest

def flags (q : OpenRequest) : Option Nat :=
  if q.openMode = efiFileModeRead then some oRdonly
  else if q.openMode = efiFileModeRead ||| efiFileModeWrite then some oRdwr
  else if q.openMode = efiFileModeRead ||| efiFileModeWrite ||| efiFileModeCreate then
    some (oCreat ||| oRdwr)
  else none

def creates (q : OpenRequest) : Bool := q.openMode &&& efiFileModeCreate != 0

def badAttributes (q : OpenRequest) : Bool :=
  q.creates && q.attributes &&& (efiFileReadOnly ||| ~~~efiFileValidAttr) != 0

end OpenRequest

namespace Driver

section

variable (d : Driver)

/-- `_open_root`, which keeps the inode of the root directory. -/
def openRoot (root : Option NtfsInode) : Driver × Option Nat :=
  match d.root with
  | some r => (d, some r)
  | none =>
    match d.inodeOpen root with
    | (d, ni) => ({ d with root := ni }, ni)

/-- The handle that `NtfsOpenVolume` makes for the root directory. -/
def rootHandle (r : Nat) : Driver :=
  let handle : IFile :=
    { type := .dir, rootDir := true, inode := r, dirNi := none, state := none, position := 0 }
  { d with next := d.next + 1 }.setHandle d.next (some handle)

def openVolume (root : Option NtfsInode) : Driver × Returned :=
  match d.openRoot root with
  | (d, none) => (d, { status := .volumeCorrupted })
  | (d, some r) => (d.rootHandle r, { status := .success })

/-- The inode that `NtfsOpenFile` opens or creates. -/
def openTarget (q : OpenRequest) : Driver × Option Nat :=
  if q.creates then
    match d.ntfsCreate q.parent q.created with
    | (d, some r) => (d, some r)
    | (d, none) =>
      if q.attributes &&& efiFileDirectory != 0 then (d, none) else d.parseEntry q.entry
  else if q.rootPath then d.inodeOpen q.root
  else d.parseEntry q.entry

/-- The `NTFS_IFILE` that `NtfsOpenFile` makes for the inode `r`. -/
def handleFor (dirNi r : Nat) : IFile :=
  let ni := d.inodes r
  { type := if ni.isDirectory then .dir else .file
    rootDir := ni.mftNo == fileRoot
    inode := r, dirNi := some dirNi, state := some (d.next + 1), position := 0 }

def addHandle (dirNi r : Nat) : Driver :=
  let s := d.next + 1
  let d' := { d with next := d.next + 2 }.setHandle d.next (some (d.handleFor dirNi r))
  if (d.inodes r).isDirectory then { d' with dirs := Function.update d.dirs s {} }
  else { d' with files := Function.update d.files s { ni := some r } }

/-- The part of `NtfsOpenFile` after the inode `r` has been opened. -/
def newHandle (dirNi : Nat) (r : Nat) (flags : Nat) (data : Option DataAttr) : Driver × Returned :=
  let s := d.next + 1
  if (d.inodes r).isDirectory then (d.addHandle dirNi r, { status := .success })
  else
    match (d.addHandle dirNi r).openR s r flags data with
    | (d, ok) => (d, { status := .success, openResult := some (s, ok) })

/-- A directory from which something is opened becomes the current one. -/
def setCwd (file : IFile) : Driver :=
  if file.type = .dir then { d with cwdNi := some file.inode } else d

/-- `NtfsOpenFile`: the result of `ntfs_open_r` is not looked at. -/
def openFile (file : IFile) (q : OpenRequest) : Driver × Returned :=
  match q.flags with
  | none => (d, { status := .invalidParameter })
  | some flags =>
    if q.badAttributes then (d, { status := .invalidParameter })
    else
      match (d.setCwd file).openTarget q with
      | (d, none) => (d, { status := .invalidParameter })
      | (d, some r) => d.newHandle file.inode r flags q.data

def readFile (h : Nat) (file : IFile) (q : ReadRequest) : Driver × Returned :=
  match file.type with
  | .file =>
    match file.state with
    | none => (d, { status := .deviceError })
    | some f =>
      match d.readR f q.bufferSize q.rets with
      | (d, true) => (d, { status := .success })
      | (d, false) => (d, { status := .deviceError })
  | .dir =>
    match d.readDirectory h file q with
    | (d, status) => (d, { status := status })

def closeFile (h : Nat) (file : IFile) : Driver × Returned :=
  let d :=
    match file.type, file.state with
    | .file, some f => d.closeR f
    | _, _ => d
  (d.setHandle h none, { status := .success })

end

end Driver

/-- What `NtfsDeleteFile` meets when it unlinks the file by its path. -/
structure DeleteRequest where
  entry : List Hop
  dir : List Hop
  deleted : Bool

namespace Driver

/-- `NtfsDeleteFile`. A failure is a warning and not an error, so that the inode of the
handle is not closed in any case. -/
def deleteFile (d : Driver) (h : Nat) (file : IFile) (q : DeleteRequest) : Driver × Returned :=
  let (d, status) :=
    if (d.inodes file.inode).mftNo < fileFirstUser then (d, CallStatus.warnDeleteFailure)
    else
      match d.ntfsUnlink q.entry q.dir q.deleted with
      | (d, true) => (d, .success)
      | (d, false) => (d, .warnDeleteFailure)
  (d.setHandle h none, { status := status })

/-- `NtfsAbandonVolume`: `uninstalled` tells whether the protocol could be uninstalled. The
volume itself, which is unmounted in either case, is not part of the state. -/
def abandonVolume (d : Driver) (uninstalled : Bool) : Driver × Returned :=
  if uninstalled then
    match d.root with
    | some _ => ({ d with root := none }, { status := .success })
    | none => (d, { status := .success })
  else (d, { status := .deviceError })

end Driver

/-- The calls that a client of the volume makes; the number is the handle. -/
inductive Call where
  | openVolume (root : Option NtfsInode)
  | openFile (h : Nat) (request : OpenRequest)
  | readFile (h : Nat) (request : ReadRequest)
  | closeFile (h : Nat)
  | deleteFile (h : Nat) (request : DeleteRequest)
  | abandonVolume (uninstalled : Bool)

namespace Driver

def mounted : Driver where
  next := 0
  inodes := fun _ => ⟨0, false, false, false, false, false⟩
  files := fun _ => {}
  dirs := fun _ => {}
  handles := fun _ => none
  root := none
  cwdNi := none
  firstOpenFile := none
  openFileCount := 0
  firstOpenDir := none
  openDirCount := 0

/-- A call; there is no answer if the handle has never been returned, or has been closed
or deleted. -/
def call (d : Driver) : Call → Option (Driver × Returned)
  | .openVolume root => some (d.openVolume root)
  | .openFile h q => (d.handles h).map fun file => d.openFile file q
  | .readFile h q => (d.handles h).map fun file => d.readFile h file q
  | .closeFile h => (d.handles h).map fun file => d.closeFile h file
  | .deleteFile h q => (d.handles h).map fun file => d.deleteFile h file q
  | .abandonVolume uninstalled => some (d.abandonVolume uninstalled)

end Driver

end NtfsDxe
