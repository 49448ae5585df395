import NtfsDxe.Foundation.LittleEndian
import NtfsDxe.Unistr.Collate

/-! # Attributes in an mft record

An mft record is a header followed by the attributes, one directly after the
other and ordered by their types, and a terminator. Room for an attribute is
made, and an attribute is resized, by moving what follows. Positions are byte
offsets from the start of the record.
-/

namespace NtfsDxe

open Foundation LittleEndian

/-! ## Fields -/

def atUnused : Nat := 0
def atAttributeList : Nat := 0x20
def atFileName : Nat := 0x30
def atData : Nat := 0x80
def atIndexRoot : Nat := 0x90
def atIndexAllocation : Nat := 0xa0
def atEnd : Nat := 0xffffffff

/-- The bits `MFT_RECORD_IS_DIRECTORY` of the record's flags. -/
def mftRecordIsDirectory (flags : Nat) : Bool := flags / 2 % 2 == 1

section Fields

variable (m : Buffer)

def attrsOffset : Nat := read m 20 2
def recordFlags : Nat := read m 22 2
def bytesInUse : Nat := read m 24 4
def bytesAllocated : Nat := read m 28 4
def nextAttrInstance : Nat := read m 40 2

variable (a : Nat)

def attrType : Nat := read m a 4
def attrLength : Nat := read m (a + 4) 4
def valueLength : Nat := read m (a + 16) 4
def valueOffset : Nat := read m (a + 20) 2

end Fields

section

variable (m : Buffer)

def setBytesInUse (n : Nat) : Buffer := write m 24 4 n

/-- `(size + 7) & ~7` on `u32` values. -/
def align8 (size : Nat) : Nat := (size + 7) % 2 ^ 32 / 8 * 8

/-! ## Memory -/

/-- A field at a position that need not be in the record. -/
def readAt (pos n : Nat) : Except Failure Nat :=
  if pos + n ≤ m.length then .ok (read m pos n) else .error .outOfBounds

def bytesAt (pos n : Nat) : Except Failure Buffer :=
  if pos + n ≤ m.length then .ok ((m.drop pos).take n) else .error .outOfBounds

/-- The name of `n` code units at a position. -/
def storedName (pos n : Nat) : Name :=
  (List.range n).map fun k => UInt16.ofNat (read m (pos + 2 * k) 2)

/-- `memcpy` or `memset` of the given bytes. -/
def poke (pos : Nat) (bs : Buffer) : Except Failure Buffer :=
  if pos + bs.length ≤ m.length then .ok (splice m pos bs) else .error .outOfBounds

def memmove (dst src count : Nat) : Except Failure Buffer :=
  if src + count ≤ m.length ∧ dst + count ≤ m.length then
    .ok (splice m dst ((m.drop src).take count))
  else .error .outOfBounds

/-- The `memcmp` of the driver's library: any difference gives `-1`. -/
def memcmp (xs ys : Buffer) : Int := if xs = ys then 0 else -1

/-! ## Finding an attribute -/

/-- A name pointer of an attribute together with `name_len`. The pointers `AT_UNNAMED` and
`NTFS_INDEX_I30` are recognized as such. -/
inductive AttrName where
  | null (nameLen : Nat)
  | unnamed
  | indexI30
  | other (chars : Name)
  deriving DecidableEq

namespace AttrName

def chars : AttrName → Name
  | null _ => []
  | unnamed => []
  | indexI30 => [0x24, 0x49, 0x33, 0x30]
  | other chars => chars

def nameLen : AttrName → Nat
  | null n => n
  | name => name.chars.length

/-- The code units as they are stored. -/
def bytes (name : AttrName) : Buffer :=
  name.chars.flatMap fun c => LittleEndian.bytes 2 c.toNat

end AttrName

/-- What a search decides at an attribute: it is the one, there is none and it would have to be
inserted here, or to go on. -/
inductive FindStep where
  | found
  | absent
  | next

/-- How a search ends, with `ctx->attr`. -/
inductive FindResult where
  | found (a : Nat)
  | absent (a : Nat)
  | corrupt

def attrValueStep (a : Nat) (val : Option Buffer) : Except Failure FindStep :=
  match val with
  | none => .ok .found
  | some val => do
    let valueOffset ← readAt m (a + 20) 2
    let avl ← readAt m (a + 16) 4
    let value ← bytesAt m (a + valueOffset) (min val.length avl)
    let rc := memcmp (val.take (min val.length avl)) value
    if rc = 0 then
      .ok (if val.length = avl then .found else if val.length < avl then .absent else .next)
    else if rc < 0 then .ok .absent
    else .ok .next

/-- How many code units `ntfs_names_full_collate` reads of the name of `n` units at `pos`: it
stops at the end of a name, and behind the first units that differ in upper case. -/
def unitsRead (upcase : List UInt16) (m : Buffer) : Name → (pos n : Nat) → Nat
  | [], _, _ => 0
  | _ :: _, _, 0 => 0
  | c :: name, pos, n + 1 =>
    if upcaseUnit upcase c = upcaseUnit upcase (UInt16.ofNat (read m pos 2)) then
      unitsRead upcase m name (pos + 2) n + 1
    else 1

/-- Compare the name, and then the value. Of the name in the record no more is read than the
comparison needs. -/
def attrNameStep (upcase : List UInt16) (ic : CaseMode) (m : Buffer) (a : Nat) (name : AttrName)
    (val : Option Buffer) : Except Failure FindStep :=
  match name with
  | .unnamed => do
    let nameLength ← readAt m (a + 9) 1
    if nameLength ≠ 0 then .ok .absent else attrValueStep m a val
  | .null _ => attrValueStep m a val
  | name => do
    let nameOffset ← readAt m (a + 10) 2
    let nameLength ← readAt m (a + 9) 1
    let _ ← bytesAt m (a + nameOffset)
      (2 * unitsRead upcase m name.chars (a + nameOffset) nameLength)
    match namesFullCollate upcase ic name.chars (storedName m (a + nameOffset) nameLength) with
    | .lt => .ok .absent
    | .gt => .ok .next
    | .eq => attrValueStep m a val

/-- The loop of `ntfs_attr_find`, from the attribute at `a` on. -/
def attrFindFrom (upcase : List UInt16) (ic : CaseMode) (m : Buffer) (type : Nat) (name : AttrName)
    (val : Option Buffer) (a : Nat) : Except Failure FindResult :=
  if _hbehind : bytesAllocated m < a then .ok .corrupt
  else
    match readAt m a 4 with
    | .error e => .error e
    | .ok t =>
      if (type ≠ atUnused ∧ type < t) ∨ t = atEnd then .ok (.absent a)
      else
        match readAt m (a + 4) 4 with
        | .error e => .error e
        | .ok length =>
          if _hzero : length = 0 then .ok .corrupt
          else if type = atUnused then .ok (.found a)
          else if t ≠ type then attrFindFrom upcase ic m type name val (a + length)
          else
            match attrNameStep upcase ic m a name val with
            | .error e => .error e
            | .ok .found => .ok (.found a)
            | .ok .absent => .ok (.absent a)
            | .ok .next => attrFindFrom upcase ic m type name val (a + length)
termination_by bytesAllocated m + 1 - a
decreasing_by all_goals omega

/-- `ntfs_attr_find` with a new search context. -/
def attrFind (upcase : List UInt16) (ic : CaseMode) (m : Buffer) (type : Nat) (name : AttrName)
    (val : Option Buffer) : Except Failure FindResult :=
  attrFindFrom upcase ic m type name val (attrsOffset m)

/-! ## Moving attributes -/

def makeRoomForAttr (pos size : Nat) : Buffer × Except Failure Unit :=
  let size := align8 size
  if s32 (bytesInUse m) - 8 < pos then (m, .error (.errno .einval))
  else if size = 0 then (m, .ok ())
  else
    let biu := bytesInUse m
    if bytesAllocated m < (biu + size) % 2 ^ 32 ∨ bytesAllocated m < pos + size then
      (m, .error (.errno .enospc))
    else
      match memmove m (pos + size) pos (biu - pos) with
      | .error e => (m, .error e)
      | .ok m => (setBytesInUse m (biu + size), .ok ())

/-- The results of the functions that resize a record: 0, -1 with `errno`, and
`STATUS_RESIDENT_ATTRIBUTE_FILLED_MFT`. -/
inductive ResizeStatus where
  | ok
  | error (e : Failure)
  | filledMft

def attrRecordResize (a newSize : Nat) : Buffer × ResizeStatus :=
  let oldSize := bytesInUse m
  let allocSize := bytesAllocated m
  let attrSize := attrLength m a
  let newSize := align8 newSize
  if newSize = attrSize then (m, .ok)
  else
    let newMuse := (oldSize + (2 ^ 32 - attrSize) + newSize) % 2 ^ 32
    if allocSize < newMuse then (m, .error (.errno .enospc))
    else if attrType m a = atIndexRoot ∧ attrSize < newSize ∧ allocSize < (newMuse + 120) % 2 ^ 32 ∧
        (oldSize + 120) % 2 ^ 32 ≤ allocSize then (m, .filledMft)
    else if oldSize < a + attrSize then (m, .error .outOfBounds)
    else
      match memmove m (a + newSize) (a + attrSize) (oldSize - a - attrSize) with
      | .error e => (m, .error e)
      | .ok m =>
        let m := setBytesInUse m newMuse
        (if 8 ≤ newSize then write m (a + 4) 4 newSize else m, .ok)

def residentAttrValueResize (a newSize : Nat) : Buffer × ResizeStatus :=
  match attrRecordResize m a (align8 (valueOffset m a + newSize)) with
  | (m, .ok) =>
    if valueLength m a < newSize then
      match poke m (a + valueOffset m a + valueLength m a)
          (List.replicate (newSize - valueLength m a) 0) with
      | .error e => (m, .error e)
      | .ok m => (write m (a + 16) 4 newSize, .ok)
    else (write m (a + 16) 4 newSize, .ok)
  | (m, status) => (m, status)

/-! ## Adding a resident attribute -/

/-- The value of a new attribute: given, or zeros if `val` is `NULL`. -/
inductive AttrValue where
  | given (val : Buffer)
  | zeros (size : Nat)

namespace AttrValue

/-- The pointer `val`. -/
def pointer : AttrValue → Option Buffer
  | given val => some val
  | zeros _ => none

def bytes : AttrValue → Buffer
  | given val => val
  | zeros size => List.replicate size 0

def size (val : AttrValue) : Nat := val.bytes.length

end AttrValue

/-- What adding an attribute depends on: `vol->attrdef` and `vol->upcase`, the memory for a
search context, whether the base inode has an attribute list, the memory for a longer list,
whether the entry has a place in the list and the list is resident in this record, and what
`ntfs_attrlist_entry_add` does for the attribute at a position if the list is not resized in
the record: any attribute may then be moved. -/
structure AttrEnv where
  hasAttrdef : Bool
  upcase : List UInt16
  hasMemory : Bool
  hasAttrList : Bool
  hasListMemory : Bool
  listInRecord : Bool
  extendAttrList : Buffer → Nat → Buffer × Except Errno Unit

/-- The fields of `ntfs_inode` that adding an attribute changes. -/
structure RecordInode where
  mrec : Buffer
  dataSize : Nat
  allocatedSize : Nat
  knownSize : Bool
  dirty : Bool

def attrCanBeResident (env : AttrEnv) (type : Nat) : Except Errno Unit :=
  if env.hasAttrdef = false ∨ type = 0 then .error .einval
  else if type ≠ atIndexAllocation then .ok ()
  else .error .eperm

def residentLength (name : AttrName) (size : Nat) : Nat :=
  (24 + align8 (name.nameLen * 2) + align8 size) % 2 ^ 32

def residentFields (type : Nat) (name : AttrName) (size dataFlags inst length : Nat) :
    List Field :=
  [⟨0, 4, type⟩, ⟨4, 4, length⟩, ⟨8, 1, 0⟩, ⟨9, 1, name.nameLen⟩,
    ⟨10, 2, if name.nameLen ≠ 0 then 24 else 0⟩, ⟨12, 2, dataFlags⟩, ⟨14, 2, inst⟩,
    ⟨16, 4, size⟩, ⟨20, 2, length - align8 size⟩]

def setupResident (a type : Nat) (name : AttrName) (val : AttrValue) (dataFlags length : Nat) :
    Except Failure Buffer :=
  let m := writeFields m a
    (residentFields type name val.size dataFlags (nextAttrInstance m) length)
  match poke m (a + valueOffset m a) val.bytes with
  | .error e => .error e
  | .ok m =>
    let m := write m (a + 22) 1 (if type = atFileName then 1 else 0)
    if name.nameLen ≠ 0 then poke m (a + 24) name.bytes else .ok m

end

def RecordInode.setSizes (ni : RecordInode) (m : Buffer) (type : Nat) (name : AttrName)
    (size : Nat) : RecordInode :=
  if (mftRecordIsDirectory (recordFlags m) = true ∧ type = atIndexRoot ∧ name = .indexI30) ∨
      (mftRecordIsDirectory (recordFlags m) = false ∧ type = atData ∧ name = .unnamed) then
    { ni with mrec := m, dataSize := size, allocatedSize := align8 size, knownSize := true }
  else { ni with mrec := m }

/-- `ntfs_attrlist_entry_add`. The entry itself is written with the inode. -/
def AttrEnv.attrlistEntryAdd (env : AttrEnv) (m : Buffer) (a : Nat) : Buffer × Except Errno Unit :=
  if env.hasListMemory = false then (m, .error .enomem)
  else if env.listInRecord = false then env.extendAttrList m a
  else
    match attrFind env.upcase .caseSensitive m atAttributeList .unnamed none with
    | .ok (.found l) =>
      match residentAttrValueResize m l
          (valueLength m l + align8 (26 + 2 * read m (a + 9) 1)) with
      | (m, .ok) => (m, .ok ())
      | _ => env.extendAttrList m a
    | _ => env.extendAttrList m a

/-- Add the attribute at `a` to the attribute list, if there is one. -/
def AttrEnv.listAttr (env : AttrEnv) (m : Buffer) (a type : Nat) : Buffer × Except Errno Unit :=
  if type ≠ atAttributeList ∧ env.hasAttrList = true then env.attrlistEntryAdd m a
  else (m, .ok ())

/-- The end of `ntfs_resident_attr_record_add`, with what adding the attribute to the attribute
list has given. -/
def RecordInode.attrListed (ni : RecordInode) (a type : Nat) (name : AttrName) (val : AttrValue) :
    Buffer × Except Errno Unit → RecordInode × Except Failure Nat
  | (m, .error e) => ({ ni with mrec := (attrRecordResize m a 0).1 }, .error (.errno e))
  | (m, .ok _) => ({ ni.setSizes m type name val.size with dirty := true }, .ok a)

/-- `ntfs_resident_attr_record_add` after the setup of the attribute in the record `m`. -/
def RecordInode.attrSetUp (env : AttrEnv) (ni : RecordInode) (m : Buffer) (a type : Nat)
    (name : AttrName) (val : AttrValue) : Except Failure Buffer → RecordInode × Except Failure Nat
  | .error e => ({ ni with mrec := m }, .error e)
  | .ok m =>
    ni.attrListed a type name val
      (env.listAttr (write m 40 2 (nextAttrInstance m + 1)) a type)

/-- `ntfs_resident_attr_record_add` after `ntfs_make_room_for_attr` at the place `a`. -/
def RecordInode.roomMade (env : AttrEnv) (ni : RecordInode) (a type : Nat) (name : AttrName)
    (val : AttrValue) (dataFlags : Nat) :
    Buffer × Except Failure Unit → RecordInode × Except Failure Nat
  | (m, .error e) => ({ ni with mrec := m }, .error e)
  | (m, .ok _) =>
    ni.attrSetUp env m a type name val
      (setupResident m a type name val dataFlags (residentLength name val.size))

/-- `ntfs_resident_attr_record_add`: the position of the new attribute. -/
def residentAttrRecordAdd (env : AttrEnv) (ni : RecordInode) (type : Nat) (name : AttrName)
    (val : AttrValue) (dataFlags : Nat) : RecordInode × Except Failure Nat :=
  if name.nameLen ≠ 0 ∧ name = .null name.nameLen then (ni, .error (.errno .einval))
  else
    match attrCanBeResident env type with
    | .error e => (ni, .error (.errno e))
    | .ok _ =>
      if env.hasMemory = false then (ni, .error (.errno .enomem))
      else
        match attrFind env.upcase .caseSensitive ni.mrec type name val.pointer with
        | .error e => (ni, .error e)
        | .ok (.found _) => (ni, .error (.errno .eexist))
        | .ok .corrupt => (ni, .error (.errno .eio))
        | .ok (.absent a) =>
          ni.roomMade env a type name val dataFlags
            (makeRoomForAttr ni.mrec a (residentLength name val.size))

end NtfsDxe
