import NtfsDxe.Foundation.Splice
import NtfsDxe.Path.CString

/-! # Opening an entry by its path

`ntfsOpenEntry` walks a path through the directories. If it ends at a junction or at a
symbolic link, `ntfs_make_symlink` makes a path of the target from the reparse data, and
that path is opened in its place.

A path is a string of bytes, a name in a directory and the target in the reparse data a
string of 16-bit characters. The functions that search a directory and that convert
strings are given by their answers. The cache of paths is left out: it answers as the
directories do.
-/

namespace NtfsDxe

open Foundation

def maxSymlinkDepth : Nat := 10

def maxNameLen : Nat := 255

/-- The record of the root directory, `FILE_root`. -/
def rootRecord : Nat := 5

/-- `PATH_SEP`, in a path and in a name. -/
def pathSep : UInt8 := 0x5C

@[inherit_doc pathSep]
def nameSep : UInt16 := 0x5C

def slash : UInt16 := 0x2F

def colon : UInt16 := 0x3A

def dot : UInt16 := 0x2E

def charsOf (text : String) : List UInt16 := text.toList.map fun c => c.toNat.toUInt16

def bytesOf (text : String) : List UInt8 := text.toList.map fun c => c.toNat.toUInt8

/-- The conversions between names and paths, `ntfs_ucstombs` and `ntfs_mbstoucs`: ASCII
characters stand for themselves, and a string ends at its first zero. -/
structure Charset where
  ucstombs : List UInt16 → Option (List UInt8)
  mbstoucs : List UInt8 → Option (List UInt16)
  ucstombs_zero : ∀ {w s}, ucstombs w = some s → 0 ∉ s
  ucstombs_colon : ∀ {w s}, ucstombs w = some s → colon ∉ w → 0x3A ∉ s
  ucstombs_component : ∀ {w s}, ucstombs w = some s →
    ucstombs (w.takeWhile (· != nameSep)) = some (s.takeWhile (· != pathSep))
  ucstombs_nil : ∀ {w}, ucstombs w = some [] → w.takeWhile (· != 0) = []
  mbstoucs_ucstombs : ∀ {w s u}, ucstombs w = some s → mbstoucs s = some u →
    u = w.takeWhile (· != 0)

structure LinkInode where
  /-- `MFT_RECORD_IS_DIRECTORY`. -/
  directory : Bool
  /-- `FILE_ATTR_REPARSE_POINT`. -/
  reparsePoint : Bool
  /-- The value of the attribute `AT_REPARSE_POINT`, empty if it cannot be read. -/
  reparse : List UInt8

structure LinkVolume extends Charset where
  /-- `ntfs_inode_open`. -/
  inode : Nat → Option LinkInode
  /-- `ntfs_inode_lookup_by_name`. -/
  lookup : Nat → List UInt16 → Option Nat
  /-- `ntfs_fix_file_name`: an entry of the directory whose name agrees up to case, and
  that name, which takes the place of the given one. -/
  fixFileName : Nat → List UInt16 → Option (Nat × List UInt16)
  /-- `ntfs_dir_parent_inode`. -/
  parent : Nat → Option Nat
  /-- `ntfs_drive_letter`. -/
  driveLetter : UInt16 → Int
  /-- `cwd_ni`. -/
  cwd : Option Nat
  lookup_slash : ∀ {dir name ni}, lookup dir name = some ni → slash ∉ name
  fixFileName_length : ∀ {dir name ni name'}, fixFileName dir name = some (ni, name') →
    name'.length = name.length
  fixFileName_zero : ∀ {dir name ni name'}, fixFileName dir name = some (ni, name') → 0 ∉ name'
  fixFileName_ascii : ∀ {dir name ni name'} {c : UInt16}, fixFileName dir name = some (ni, name') →
    c = nameSep ∨ c = colon → c ∉ name → c ∉ name'

/-! ## Reparse data -/

namespace LinkInode

variable (i : LinkInode)

/-- The 16-bit number at an offset of the reparse data. -/
def word (offset : Nat) : Nat :=
  (i.reparse.getD offset 0).toNat + 256 * (i.reparse.getD (offset + 1) 0).toNat

def tag : Nat := i.word 0 + 65536 * i.word 2

/-- `IO_REPARSE_TAG_MOUNT_POINT`. -/
def isMountPoint : Bool := i.tag == 0xA0000003

/-- `IO_REPARSE_TAG_SYMLINK`. -/
def isSymlink : Bool := i.tag == 0xA000000C

/-- `ntfs_possible_symlink`, for an inode with reparse data. -/
def possibleSymlink : Bool :=
  i.reparsePoint && i.reparse != [] && (i.isMountPoint || i.isSymlink)

/-- The offset of `path_buffer`: a symbolic link has its flags before it. -/
def pathBuffer : Nat := if i.isMountPoint then 16 else 20

def substNameOffset : Nat := i.word 8

def substNameLength : Nat := i.word 10

/-- The flag of a symbolic link whose target is not a full one. -/
def flagged : Bool := i.word 16 % 2 == 1

def validReparseData : Bool :=
  decide (8 ≤ i.reparse.length) && i.word 4 + 8 == i.reparse.length &&
    (if i.isMountPoint then
      i.directory &&
        decide (i.pathBuffer + i.substNameOffset + i.substNameLength ≤ i.reparse.length)
    else if i.isSymlink then
      decide (i.pathBuffer + i.substNameOffset + i.substNameLength ≤ i.reparse.length)
    else true)

def characters : List UInt8 → List UInt16
  | low :: high :: bytes => (low.toUInt16 + 256 * high.toUInt16) :: characters bytes
  | _ => []

def junction : List UInt16 := characters (i.reparse.drop (i.pathBuffer + i.substNameOffset))

def count : Nat := i.substNameLength / 2

def target : List UInt16 := i.junction.take i.count

end LinkInode

/-! ## The search for the target -/

/-- The length of the component of a path that begins at `start`. -/
def componentLength (path : List UInt16) (count start : Nat) : Nat :=
  (((path.take count).drop start).takeWhile (· != nameSep)).length

/-- The component of a path that begins at `start`. -/
def component (path : List UInt16) (count start : Nat) : List UInt16 :=
  (path.drop start).take (componentLength path count start)

namespace LinkVolume

variable (v : LinkVolume)

/-- The loop of `search_absolute`. In each round but the last a separator is passed. -/
def searchAbsoluteLoop (count : Nat) : Nat → Nat → Nat → List UInt16 → List UInt16 × Option Nat
  | 0, _, _, path => (path, none)
  | fuel + 1, ni, start, path =>
    match v.fixFileName ni (component path count start) with
    | none => (path, none)
    | some (inum, name) =>
      let finish := start + componentLength path count start
      let path := splice path start name
      let path := if finish < count then path.set finish slash else path
      match v.inode inum with
      | none => (path, none)
      | some i =>
        if i.directory && !i.reparsePoint && decide (finish + 1 < count) then
          searchAbsoluteLoop count fuel inum (finish + 1) path
        else (path, some inum)

/-- `search_absolute`: the rewritten path, and the path of the target if it is found. -/
def searchAbsolute (path : List UInt16) (count : Nat) (isdir : Bool) :
    List UInt16 × Option (List UInt8) :=
  match v.inode rootRecord with
  | none => (path, none)
  | some _ =>
    match v.searchAbsoluteLoop count (count + 1) rootRecord 0 path with
    | (path, none) => (path, none)
    | (path, some ni) =>
      match v.inode ni with
      | none => (path, none)
      | some i =>
        if i.directory == isdir || i.reparsePoint then (path, v.ucstombs (path.take count))
        else (path, none)

/-- The variables of `search_relative`. -/
structure Search where
  path : List UInt16
  pos : Nat
  curni : Option Nat
  ok : Bool
  morelinks : Bool

/-- The component `.` at the position of the search. -/
def Search.atDot (s : Search) (count : Nat) : Bool :=
  decide (s.pos + 2 ≤ count) && s.path.getD s.pos 0 == dot &&
    s.path.getD (s.pos + 1) 0 == nameSep

/-- The component `..` at the position of the search. -/
def Search.atDotDot (s : Search) (count : Nat) : Bool :=
  decide (s.pos + 3 ≤ count) && s.path.getD s.pos 0 == dot && s.path.getD (s.pos + 1) 0 == dot &&
    s.path.getD (s.pos + 2) 0 == nameSep

/-- `search_relative` at a component that is neither `.` nor `..`. -/
def searchName (directory : Bool) (count curni : Nat) (s : Search) : Search :=
  let lth := componentLength s.path count s.pos
  if lth = 0 then { s with ok := false }
  else
    match v.fixFileName curni (component s.path count s.pos) with
    | none => { s with ok := false }
    | some (inum, name) =>
      let path := splice s.path s.pos name
      match v.inode inum with
      | none => { s with path := path, ok := false }
      | some i =>
        if s.pos + lth < count then
          { path := path.set (s.pos + lth) slash, pos := s.pos + lth + 1, curni := some inum,
            ok := s.ok, morelinks := i.reparsePoint }
        else
          { path := path, pos := s.pos + lth, curni := some inum,
            ok := s.ok && (i.reparsePoint || directory == i.directory),
            morelinks := i.reparsePoint }

/-- One round of `search_relative`. The separators behind `.` and `..` are written at fixed
places of the path. -/
def searchStep (directory : Bool) (count curni : Nat) (s : Search) : Search :=
  if s.atDot count then { s with path := s.path.set 1 slash, pos := s.pos + 2 }
  else if s.atDotDot count then
    { s with
      path := s.path.set 2 slash
      pos := s.pos + 3
      curni := v.parent curni
      ok := s.ok && (v.parent curni).isSome }
  else v.searchName directory count curni s

/-- The loop of `search_relative`, with the rounds that are left. -/
def searchLoop (directory : Bool) (count : Nat) : Nat → Search → Search
  | 0, s => s
  | rounds + 1, s =>
    match s.curni with
    | none => s
    | some curni =>
      if s.ok && !s.morelinks && decide (s.pos < count - 1) then
        searchLoop directory count rounds (v.searchStep directory count curni s)
      else s

def searchResult (count : Nat) (s : Search) : Option (List UInt8) :=
  if s.ok then v.ucstombs (s.path.take count) else none

/-- `search_relative`, for the link `ni`; its loop counts `max` down from 32. -/
def searchRelative (ni : Nat) (directory : Bool) (path : List UInt16) (count : Nat) :
    Option (List UInt8) :=
  v.searchResult count (v.searchLoop directory count 31
    { path := path, pos := 0, curni := v.parent ni, ok := true, morelinks := false })

/-! ## The path of the target -/

def foundTarget (mntPoint target : List UInt8) : List UInt8 :=
  let fulltarget := List.replicate ((cstr mntPoint).length + target.length + 2) 0
  strcat (strcat (strcpy fulltarget mntPoint) (bytesOf "/")) target

def mappingdir : List UInt8 := bytesOf ".NTFS-3G/"

/-- Reverse the slashes, and make the drive letter an upper case one. -/
def driveTarget (target : List UInt8) : List UInt8 :=
  let target := target.map fun c => if c = pathSep then 0x2F else c
  if target.getD 1 0 = 0x3A ∧ 0x61 ≤ target.getD 0 0 ∧ target.getD 0 0 ≤ 0x7A then
    target.set 0 (target.getD 0 0 - 0x20)
  else target

/-- The path in the directory where the user may define a target that is not found. -/
def mappedTarget (mntPoint target : List UInt8) : List UInt8 :=
  let target := driveTarget target
  let fulltarget := List.replicate ((cstr mntPoint).length + 10 + target.length + 1) 0
  strcat (strcat (strcat (strcpy fulltarget mntPoint) (bytesOf "/")) mappingdir) target

def mapTarget (mntPoint : List UInt8) (junction : List UInt16) : Option (List UInt8) :=
  match v.ucstombs junction with
  | none => none
  | some target => if target = [] then none else some (mappedTarget mntPoint target)

section

variable (junction : List UInt16)

/-- A junction to a directory, `\??\x:\`. -/
def dirJunction (count : Nat) : Bool :=
  decide (7 ≤ count) && junction.take 4 == charsOf "\\??\\" && junction.getD 4 0 != 0 &&
    junction.getD 5 0 == colon && junction.getD 6 0 == nameSep

/-- A junction to a volume, `\??\Volume\x7b`. -/
def volJunction (count : Nat) : Bool :=
  decide (12 ≤ count) && junction.take 11 == charsOf "\\??\\Volume\x7b" &&
    junction.getD (count - 1) 0 == nameSep

def getFulllink (count : Nat) (mntPoint : List UInt8) (isdir : Bool) : Option (List UInt8) :=
  if dirJunction junction count then
    if junction.getD 7 0 != 0 && v.driveLetter (junction.getD 4 0) == 0 then
      match v.searchAbsolute (junction.drop 7) (count - 7) isdir with
      | (_, some target) => some (foundTarget mntPoint target)
      | (path, none) => v.mapTarget mntPoint (((junction.take 7 ++ path).drop 4).take (count - 4))
    else v.mapTarget mntPoint ((junction.drop 4).take (count - 4))
  else if volJunction junction count then
    v.mapTarget mntPoint ((junction.drop 4).take (count - 5))
  else none

/-- A full path, `x:\`. -/
def fullPath (count : Nat) : Bool :=
  decide (3 ≤ count) && junction.getD 0 0 != 0 && junction.getD 1 0 == colon &&
    junction.getD 2 0 == nameSep

def getAbslink (count : Nat) (mntPoint : List UInt8) (isdir : Bool) : Option (List UInt8) :=
  if fullPath junction count then
    if junction.getD 3 0 != 0 && v.driveLetter (junction.getD 0 0) == 0 then
      match v.searchAbsolute (junction.drop 3) (count - 3) isdir with
      | (_, some target) => some (foundTarget mntPoint target)
      | (path, none) => v.mapTarget mntPoint ((junction.take 3 ++ path).take count)
    else v.mapTarget mntPoint (junction.take count)
  else if junction.getD 0 0 == nameSep then
    (v.searchAbsolute (junction.drop 1) (count - 1) isdir).2.map (foundTarget mntPoint)
  else none

end

/-- The kind of a symbolic link. -/
inductive TargetKind
  | full
  | abs
  | rel
  deriving DecidableEq

/-- The kind as it is predetermined from the first two characters. -/
def targetKind (p : List UInt16) : TargetKind :=
  if p.getD 0 0 = nameSep then
    if p.getD 1 0 = 0x3F ∨ p.getD 1 0 = nameSep then .full else .abs
  else if p.getD 1 0 = colon then .abs
  else .rel

/-- `ntfs_make_symlink` for a symbolic link. -/
def symlinkTarget (ni : Nat) (i : LinkInode) (mntPoint : List UInt8) : Option (List UInt8) :=
  match targetKind i.junction with
  | .full => if i.flagged then none else v.getFulllink i.junction i.count mntPoint i.directory
  | .abs => if i.flagged then v.getAbslink i.junction i.count mntPoint i.directory else none
  | .rel => if i.flagged then v.searchRelative ni i.directory i.junction i.count else none

def makeSymlink (ni : Nat) (i : LinkInode) (mntPoint : List UInt8) : Option (List UInt8) :=
  if i.reparse != [] && i.validReparseData then
    if i.isMountPoint then v.getFulllink i.junction i.count mntPoint i.directory
    else if i.isSymlink then v.symlinkTarget ni i mntPoint
    else none
  else none

/-! ## Paths -/

/-- One component in `ntfs_pathname_to_inode`. -/
def enter (dir : Nat) (token : List UInt8) : Option Nat :=
  match v.mbstoucs token with
  | none => none
  | some unicode =>
    if unicode.length > maxNameLen then none
    else
      match v.lookup dir unicode with
      | none => none
      | some ni => if (v.inode ni).isSome then some ni else none

/-- The loop of `ntfs_pathname_to_inode`; `token` is what has been passed of a component. -/
def walk (dir : Nat) (token : List UInt8) : List UInt8 → Option Nat
  | [] => if token = [] then some dir else v.enter dir token
  | c :: rest =>
    if c = pathSep then
      if token = [] then walk dir [] rest
      else
        match v.enter dir token with
        | none => none
        | some ni => walk ni [] rest
    else walk dir (token ++ [c]) rest

def pathnameToInode (parent : Option Nat) (pathname : List UInt8) : Option Nat :=
  match parent with
  | some dir => v.walk dir [] pathname
  | none => if (v.inode rootRecord).isSome then v.walk rootRecord [] pathname else none

end LinkVolume

/-- `ntfsRealPath`: what follows the colon. -/
def realPath (path : List UInt8) : Option (List UInt8) :=
  let path := if 0x3A ∈ path then (path.dropWhile (· != 0x3A)).tail else path
  if 0x3A ∈ path then none else some path

/-- The path that `ntfsParseEntry` looks for. -/
def entryPath (path : List UInt8) : Option (List UInt8) :=
  (realPath (cstr path)).map fun path => if path = [] then bytesOf "." else path

def isAbsolute (path : List UInt8) : Bool := path.head? == some pathSep

/-- What is left of the path when a link is followed: one that is not absolute has lost its
first character. -/
def mountPointPath (path : List UInt8) : List UInt8 := if isAbsolute path then path else path.tail

/-- The end of one call of `ntfsParseEntry`. -/
inductive Round
  | done (entry : Option Nat)
  | link (target : List UInt8)
  deriving DecidableEq

namespace LinkVolume

variable (v : LinkVolume)

def find (path : List UInt8) : Option Nat :=
  v.pathnameToInode (if isAbsolute path then none else v.cwd) path

/-- `ntfsParseEntry` up to its recursive call. -/
def parseRound (reparseLevel : Nat) (path : List UInt8) : Round :=
  match entryPath path with
  | none => .done none
  | some path =>
    match v.find path with
    | none => .done none
    | some ni =>
      match v.inode ni with
      | none => .done none
      | some i =>
        if i.possibleSymlink then
          if reparseLevel > maxSymlinkDepth then .done none
          else
            match v.makeSymlink ni i (mountPointPath path) with
            | none => .done none
            | some target => .link (cstr target)
        else .done (some ni)

/-- `ntfsParseEntry`: the inode, and the number of links that were followed. The recursive
call is passed `reparseLevel++`, which is the old level. -/
def parseEntry : Nat → Nat → List UInt8 → Option (Option Nat × Nat)
  | 0, _, _ => none
  | fuel + 1, reparseLevel, path =>
    match v.parseRound reparseLevel path with
    | .done entry => some (entry, 0)
    | .link target =>
      (parseEntry fuel reparseLevel target).map fun r => (r.1, r.2 + 1)

def openEntry (fuel : Nat) (path : List UInt8) : Option (Option Nat × Nat) :=
  v.parseEntry fuel 1 path

end LinkVolume

end NtfsDxe
