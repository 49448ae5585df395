import NtfsDxe.Foundation.IntrusiveList

/-! # Open files, directories and inodes of a mounted volume

The state that the entry points of the driver share, and the inodes that are
opened while a path is resolved. Memory is never reused: an object keeps its
address after it has been closed, and what is stored there stays, so that closing
an inode or an attribute is no step of the model.
What is on the volume is not part of the state. It appears as the answers that
the file system library gives in the course of a call.
-/

namespace NtfsDxe

open Foundation.IntrusiveList

/-- The fields of `ntfs_inode` that the driver looks at. -/
structure NtfsInode where
  mftNo : Nat
  isDirectory : Bool
  readOnly : Bool
  compressed : Bool
  encrypted : Bool
  /-- A reparse point that `ntfs_possible_symlink` accepts. -/
  symlink : Bool
  deriving DecidableEq

/-- The fields of the data attribute that `ntfs_open_r` looks at. -/
structure DataAttr where
  compressed : Bool
  encrypted : Bool
  dataSize : Nat

/-- `ntfs_file_state`; the volume descriptor is the one of the driver. -/
structure NtfsFileState where
  ni : Option Nat := none
  dataNa : Option Nat := none
  flags : Nat := 0
  read : Bool := false
  write : Bool := false
  append : Bool := false
  compressed : Bool := false
  encrypted : Bool := false
  pos : Nat := 0
  len : Nat := 0
  prevOpenFile : Option Nat := none
  nextOpenFile : Option Nat := none

/-- `ntfs_dir_entry`, without the link to the next one. -/
structure NtfsDirEntry where
  name : List UInt8
  mref : Nat
  deriving DecidableEq

/-- `ntfs_dir_state`; `current` is the list from the current entry on. -/
structure NtfsDirState where
  ni : Option Nat := none
  first : List NtfsDirEntry := []
  current : List NtfsDirEntry := []
  prevOpenDir : Option Nat := none
  nextOpenDir : Option Nat := none

inductive FileType where
  | file
  | dir
  deriving DecidableEq

/-- `NTFS_IFILE`: `state` is the address of a file or directory state, by the type. -/
structure IFile where
  type : FileType
  rootDir : Bool
  inode : Nat
  dirNi : Option Nat
  state : Option Nat
  position : Int

/-- The volume with its descriptor and everything that is allocated for it: `next` is
the first address that has not been used. -/
structure Driver where
  next : Nat
  inodes : Nat → NtfsInode
  files : Nat → NtfsFileState
  dirs : Nat → NtfsDirState
  handles : Nat → Option IFile
  root : Option Nat
  cwdNi : Option Nat
  firstOpenFile : Option Nat
  openFileCount : UInt16
  firstOpenDir : Option Nat
  openDirCount : UInt16

namespace Driver

section

variable (d : Driver)

/-- `ntfs_inode_open`, where `ni` is the inode that it reads, if it succeeds. -/
def inodeOpen : Option NtfsInode → Driver × Option Nat
  | none => (d, none)
  | some ni =>
    ({ d with next := d.next + 1, inodes := Function.update d.inodes d.next ni }, some d.next)

/-- `ntfs_attr_open` where it succeeds. -/
def attrOpen : Driver × Nat := ({ d with next := d.next + 1 }, d.next)

def links : Links Nat where
  first := d.firstOpenFile
  next := fun f => (d.files f).nextOpenFile
  prev := fun f => (d.files f).prevOpenFile

def modifyFile (f : Nat) (change : NtfsFileState → NtfsFileState) : Driver :=
  { d with files := Function.update d.files f (change (d.files f)) }

def modifyDir (s : Nat) (change : NtfsDirState → NtfsDirState) : Driver :=
  { d with dirs := Function.update d.dirs s (change (d.dirs s)) }

end

end Driver

/-- What the lookup of one component of a path finds: nothing, or an entry whose inode
can be opened or not. -/
inductive Component where
  | missing
  | found (ni : Option NtfsInode)

/-- What `ntfs_pathname_to_inode` meets on its way. A relative path starts in the
current directory; it is not empty. -/
structure Walk where
  relative : Bool
  /-- The inode, if the whole path is found in the path cache. -/
  cached : Option (Option NtfsInode)
  root : Option NtfsInode
  components : List Component
  relative_ne_nil : relative = true → components ≠ []

/-- A walk from the root directory without the path cache. -/
def Walk.absolute (root : NtfsInode) (components : List Component) : Walk where
  relative := false
  cached := none
  root := some root
  components := components
  relative_ne_nil := by
    intro h
    cases h

/-- One round of `ntfsParseEntry`. If the path leads to a symbolic link, `target` tells
whether the path of its target could be made. -/
structure Hop where
  walk : Walk
  target : Bool

namespace Driver

/-- The loop of `ntfs_pathname_to_inode`, in the directory `r`. -/
def walkFrom (d : Driver) (r : Nat) : List Component → Driver × Option Nat
  | [] => (d, some r)
  | .missing :: _ => (d, none)
  | .found ni :: components =>
    match d.inodeOpen ni with
    | (d, none) => (d, none)
    | (d, some r) => d.walkFrom r components

def pathnameToInode (d : Driver) (parent : Option Nat) (walk : Walk) : Driver × Option Nat :=
  match parent with
  | some r => d.walkFrom r walk.components
  | none =>
    match walk.cached with
    | some ni => d.inodeOpen ni
    | none =>
      match d.inodeOpen walk.root with
      | (d, none) => (d, none)
      | (d, some r) => d.walkFrom r walk.components

/-- `ntfsParseEntry`: symbolic links are followed, a relative target from the current
directory. The list ends with a target that is not a path. -/
def parseEntry (d : Driver) : List Hop → Driver × Option Nat
  | [] => (d, none)
  | hop :: hops =>
    match d.pathnameToInode (if hop.walk.relative then d.cwdNi else none) hop.walk with
    | (d, none) => (d, none)
    | (d, some r) =>
      if (d.inodes r).symlink then
        if hop.target then d.parseEntry hops else (d, none)
      else (d, some r)

/-- `ntfsCreate`: `created` is the new inode if `ntfs_create` succeeds. -/
def ntfsCreate (d : Driver) (dir : List Hop) (created : Option NtfsInode) : Driver × Option Nat :=
  match d.parseEntry dir with
  | (d, none) => (d, none)
  | (d, some _) => d.inodeOpen created

/-- `ntfsUnlink`: `deleted` is the result of `ntfs_delete`. -/
def ntfsUnlink (d : Driver) (entry dir : List Hop) (deleted : Bool) : Driver × Bool :=
  match d.parseEntry entry with
  | (d, none) => (d, false)
  | (d, some _) =>
    match d.parseEntry dir with
    | (d, none) => (d, false)
    | (d, some _) => (d, deleted)

end Driver

end NtfsDxe
