import NtfsDxe.Core.AttrData
import NtfsDxe.Directory.FileInfo

/-! # Reading a directory

`ntfs_readdir` passes the entries of a directory to a callback: first two entries for
the directory and its parent, then the entries of the index root and of the index
blocks in use. The position it leaves tells where a further call begins.
-/

namespace NtfsDxe

/-! ## The index of a directory -/

/-- An `INDEX_ENTRY` of a directory. -/
structure DirIndexEntry where
  length : Nat
  keyLength : Nat
  isEnd : Bool
  indexedFile : Nat
  fileAttributes : UInt32
  fileName : List UInt16
  fileNameType : UInt8

/-- An `INDEX_HEADER` and the entries behind it, by their offset in the index root or the
index block. -/
structure DirIndexHeader where
  entriesOffset : Nat
  indexLength : Nat
  allocatedSize : Nat
  entry : Nat → DirIndexEntry

structure DirIndexRoot where
  indexBlockSize : Nat
  index : DirIndexHeader

structure DirIndexBlock where
  indexBlockVcn : Int
  index : DirIndexHeader

/-- The `$INDEX_ALLOCATION` attribute. `block` is the result of reading a block at a
position. -/
structure DirIndexAllocation where
  dataSize : Nat
  block : Nat → Option DirIndexBlock

/-- The `$BITMAP` attribute. `reads` tells whether reading so many bytes from a position on
succeeds. -/
structure DirBitmap where
  data : AttrData
  reads : Nat → Nat → Bool

inductive OpenedAttr (α : Type*) where
  | found (attr : α)
  | missing
  | failed

inductive DirentType where
  | unknown
  | fifo
  | chr
  | dir
  | blk
  | reg
  | lnk
  | sock
  deriving DecidableEq

structure DirVolume where
  mftRecordSize : Nat
  clusterSize : Nat
  clusterSizeBits : Nat
  showHidFiles : Bool
  showSysFiles : Bool
  caseSensitive : Bool
  locase : Option (List UInt16)
  upcaseLen : Nat

/-- A directory inode. `parentRef` is the result of `ntfs_mft_get_parent_ref`,
`dirEntryType` that of `ntfs_dir_entry_type`, and `malloc` tells whether so many bytes can
be allocated. -/
structure DirInode where
  vol : DirVolume
  isDirectory : Bool
  selfRef : Nat
  parentRef : Option Nat
  root : Option DirIndexRoot
  allocation : OpenedAttr DirIndexAllocation
  bitmap : Option DirBitmap
  dirEntryType : Nat → UInt32 → DirentType
  malloc : Nat → Bool

/-! ## Passing entries -/

/-- What the callback is called with. -/
structure Dirent where
  name : List UInt16
  nameType : UInt8
  pos : Nat
  mref : Nat
  dtType : DirentType
  deriving DecidableEq

/-- The position and the state of the callback. -/
structure DirWalk (σ : Type*) where
  pos : Nat
  dirent : σ
  deriving DecidableEq

/-- Why `ntfs_readdir` returns -1: the callback has refused an entry, the directory is
found to be corrupt (`EIO`), it is none (`ENOTDIR`), or another function has failed. -/
inductive ReaddirStop where
  | refused
  | eio
  | enotdir
  | failed
  deriving DecidableEq

abbrev WalkResult (σ : Type*) := Except (ReaddirStop × DirWalk σ) (DirWalk σ)

variable {σ : Type*} (filldir : σ → Dirent → σ × Int)

def callFilldir (w : DirWalk σ) (entry : Dirent) : WalkResult σ :=
  let called := filldir w.dirent entry
  if called.2 ≠ 0 then .error (.refused, { w with dirent := called.1 })
  else .ok { w with dirent := called.1 }

/-- `MREF`. -/
def mrefNumber (mref : Nat) : Nat := mref % 2 ^ 48

def nameLocase (locase : Option (List UInt16)) (len : Nat) (name : List UInt16) : List UInt16 :=
  match locase with
  | none => name
  | some table => name.map fun u => if u.toNat < len then table.getD u.toNat u else u

def fileAttrReparsePoint : UInt32 := 0x00000400
def fileAttrI30IndexPresent : UInt32 := 0x10000000

def DirIndexEntry.metadata (e : DirIndexEntry) : Bool :=
  mrefNumber e.indexedFile ≠ 5 && mrefNumber e.indexedFile < 16

/-- Whether the volume shows an entry, by its settings for hidden and system files. -/
def DirVolume.shows (vol : DirVolume) (e : DirIndexEntry) : Bool :=
  (!e.metadata && (vol.showHidFiles || e.fileAttributes &&& fileAttrHidden == 0)) ||
    (vol.showSysFiles && (vol.showHidFiles || e.metadata))

section

variable (d : DirInode)

def DirInode.entryType (e : DirIndexEntry) : DirentType :=
  if e.fileAttributes &&& (fileAttrReparsePoint ||| fileAttrSystem) != 0 && !e.metadata then
    d.dirEntryType e.indexedFile e.fileAttributes
  else if e.fileAttributes &&& fileAttrI30IndexPresent != 0 then .dir
  else .reg

def DirVolume.entryName (vol : DirVolume) (e : DirIndexEntry) : List UInt16 :=
  if vol.caseSensitive then e.fileName else nameLocase vol.locase vol.upcaseLen e.fileName

def DirInode.entryDirent (pos : Nat) (e : DirIndexEntry) : Dirent where
  name := d.vol.entryName e
  nameType := e.fileNameType
  pos := pos
  mref := e.indexedFile
  dtType := d.entryType e

/-- `ntfs_filldir` for the entry at position `pos`. The position is advanced even if the
entry is skipped. -/
def ntfsFilldir (pos : Nat) (e : DirIndexEntry) (w : DirWalk σ) : WalkResult σ :=
  let w := { w with pos := pos }
  if mrefNumber e.indexedFile = 5 then .ok w
  else if d.vol.shows e then
    if d.vol.caseSensitive || d.malloc (2 * e.fileName.length) then
      callFilldir filldir w (d.entryDirent pos e)
    else .error (.failed, w)
  else .ok w

/-! ## The entries of a node -/

/-- The loop over the entries from offset `off` on. Those before offset `skip` have been
passed by an earlier call. -/
def entryLoop (fill : Nat → DirIndexEntry → DirWalk σ → WalkResult σ) (index : DirIndexHeader)
    (indexEnd skip : Nat) : Nat → Nat → DirWalk σ → WalkResult σ
  | 0, _, w => .error (.eio, w)
  | fuel + 1, off, w =>
    if indexEnd < off + 16 ∨ indexEnd < off + (index.entry off).keyLength then .error (.eio, w)
    else if (index.entry off).isEnd then .ok w
    else if (index.entry off).length = 0 then .error (.eio, w)
    else if off < skip then
      entryLoop fill index indexEnd skip fuel (off + (index.entry off).length) w
    else
      (fill off (index.entry off) w).bind
        (entryLoop fill index indexEnd skip fuel (off + (index.entry off).length))

def rootLoop (root : DirIndexRoot) (w : DirWalk σ) : WalkResult σ :=
  let indexEnd := 16 + root.index.indexLength
  entryLoop (ntfsFilldir filldir d) root.index indexEnd w.pos (indexEnd + 1)
    (16 + root.index.entriesOffset) w

/-- `index_block_size_bits`. -/
def DirIndexRoot.blockBits (root : DirIndexRoot) : Nat := Nat.log2 root.indexBlockSize

/-- `index_vcn_size_bits`. -/
def DirIndexRoot.vcnBits (vol : DirVolume) (root : DirIndexRoot) : Nat :=
  if vol.clusterSize ≤ root.indexBlockSize then vol.clusterSizeBits else 9

def allocationPos (vol : DirVolume) (vcnBits : Nat) (vcn : Int) (off : Nat) : Nat :=
  off + vcn.toNat <<< vcnBits + vol.mftRecordSize

/-- The entries of the index block `bmpPos`. -/
def blockEntries (root : DirIndexRoot) (ia : DirIndexAllocation) (bmpPos iaPos : Nat)
    (w : DirWalk σ) : WalkResult σ :=
  match ia.block (bmpPos <<< root.blockBits) with
  | none => .error (.failed, w)
  | some block =>
    let iaStart := iaPos - iaPos % root.indexBlockSize
    let indexEnd := 0x18 + block.index.indexLength
    if block.indexBlockVcn ≠ (iaStart >>> root.vcnBits d.vol : Nat) then .error (.eio, w)
    else if block.index.allocatedSize + 0x18 ≠ root.indexBlockSize then .error (.eio, w)
    else if root.indexBlockSize < indexEnd then .error (.eio, w)
    else
      entryLoop
        (fun off => ntfsFilldir filldir d
          (allocationPos d.vol (root.vcnBits d.vol) block.indexBlockVcn off))
        block.index indexEnd (iaPos - iaStart) (indexEnd + 1)
        (0x18 + block.index.entriesOffset) w

/-! ## The blocks in use -/

/-- A place in the bitmap with the part of it that has been read: `bmp_pos`,
`bmp_buf_pos` and the buffer of `bmp_buf_size` bytes. -/
structure BitmapCursor where
  pos : Nat
  bufPos : Nat
  buf : List UInt8

/-- `ntfs_attr_pread` of the bitmap. -/
def DirBitmap.pread (bmp : DirBitmap) (pos count : Nat) : Option (List UInt8) :=
  if bmp.reads pos count then
    some ((List.range (min count (bmp.data.size - pos))).map fun k => bmp.data.byte (pos + k))
  else none

/-- A read that is too short fails. -/
def DirBitmap.fetch (bmp : DirBitmap) (pos count : Nat) : Option (List UInt8) :=
  (bmp.pread pos count).filter fun buf => buf.length = count

def BitmapCursor.used (c : BitmapCursor) : Bool :=
  Foundation.Bits.getBit (c.buf.getD (c.bufPos / 8) 0) (c.bufPos % 8)

/-- How `find_next_index_buffer` goes on. -/
inductive NextBlock where
  | at (cursor : BitmapCursor)
  | endOfBitmap
  | failed

/-- `find_next_index_buffer`: one bit further, with the next part of the bitmap if
necessary. -/
def BitmapCursor.next (bmp : DirBitmap) (c : BitmapCursor) : NextBlock :=
  if bmp.data.size ≤ (c.pos + 1) / 8 then .endOfBitmap
  else if (c.bufPos + 1) / 8 < c.buf.length then .at ⟨c.pos + 1, c.bufPos + 1, c.buf⟩
  else
    let bufSize :=
      if bmp.data.size < (c.pos + 1) / 8 + c.buf.length then bmp.data.size - (c.pos + 1) / 8
      else c.buf.length
    match bmp.fetch ((c.pos + 1) / 8) bufSize with
    | none => .failed
    | some buf => .at ⟨c.pos + 1, 0, buf⟩

/-- The loop over the index blocks. `iaPos` is a position in the block at the cursor. -/
def blockLoop (d : DirInode) (root : DirIndexRoot) (ia : DirIndexAllocation) (bmp : DirBitmap) :
    Nat → BitmapCursor → Nat → DirWalk σ → WalkResult σ
  | 0, _, _, w => .error (.eio, w)
  | fuel + 1, c, iaPos, w =>
    (if c.used then blockEntries filldir d root ia c.pos iaPos w else .ok w).bind fun w =>
      match c.next bmp with
      | .endOfBitmap => .ok w
      | .failed => .error (.failed, w)
      | .at c' => blockLoop d root ia bmp fuel c' (c'.pos <<< root.blockBits) w

/-- The part of the walk in the index allocation, from `skip_index_root` on. -/
def allocationLoop (root : DirIndexRoot) (ia : DirIndexAllocation) (w : DirWalk σ) : WalkResult σ :=
  if !d.malloc root.indexBlockSize then .error (.failed, w)
  else
    match d.bitmap with
    | none => .error (.eio, w)
    | some bmp =>
      let iaPos := w.pos - d.vol.mftRecordSize
      let bmpPos := iaPos >>> root.blockBits
      if bmp.data.size ≤ bmpPos / 8 then .error (.eio, w)
      else
        let bufSize := min (bmp.data.size - bmpPos / 8) 4096
        if !d.malloc bufSize then .error (.failed, w)
        else
          match bmp.fetch (bmpPos / 8) bufSize with
          | none => .error (.failed, w)
          | some buf =>
            blockLoop filldir d root ia bmp (8 * bmp.data.size) ⟨bmpPos, 0, buf⟩ iaPos w

/-! ## The whole walk -/

def dotName16 : List UInt16 := [46]
def dotDotName16 : List UInt16 := [46, 46]

def DirInode.dotEntry : Dirent := ⟨dotName16, 0, 0, d.selfRef, .dir⟩

def dotDotEntry (parent : Nat) : Dirent := ⟨dotDotName16, 0, 1, parent, .dir⟩

def passDot (w : DirWalk σ) : WalkResult σ :=
  if w.pos = 0 then
    (callFilldir filldir w d.dotEntry).map fun w => { w with pos := 1 }
  else .ok w

def passDotDot (w : DirWalk σ) : WalkResult σ :=
  if w.pos = 1 then
    match d.parentRef with
    | none => .error (.eio, w)
    | some parent => (callFilldir filldir w (dotDotEntry parent)).map fun w => { w with pos := 2 }
  else .ok w

def DirInode.endPos (size : Nat) : Nat := size + d.vol.mftRecordSize

def indexWalk (ia : Option DirIndexAllocation) (w : DirWalk σ) : WalkResult σ :=
  match d.root with
  | none => .error (.eio, w)
  | some root =>
    if root.indexBlockSize < 512 ∨ root.indexBlockSize &&& (root.indexBlockSize - 1) ≠ 0 then
      .error (.eio, w)
    else if d.vol.mftRecordSize ≤ w.pos then
      match ia with
      | none => .ok w
      | some ia =>
        (allocationLoop filldir d root ia w).map fun w =>
          { w with pos := d.endPos ia.dataSize }
    else
      (rootLoop filldir d root w).bind fun w =>
        match ia with
        | none => .ok { w with pos := d.endPos 0 }
        | some ia =>
          (allocationLoop filldir d root ia { w with pos := d.vol.mftRecordSize }).map fun w =>
            { w with pos := d.endPos ia.dataSize }

def readdirFrom (ia : Option DirIndexAllocation) (size : Nat) (w : DirWalk σ) : WalkResult σ :=
  if d.endPos size ≤ w.pos then .ok w
  else
    (passDot filldir d w).bind fun w =>
      (passDotDot filldir d w).bind fun w => indexWalk filldir d ia w

def ntfsReaddir (w : DirWalk σ) : WalkResult σ :=
  if !d.isDirectory then .error (.enotdir, w)
  else
    match d.allocation with
    | .failed => .error (.failed, w)
    | .missing => readdirFrom filldir d none 0 w
    | .found ia => readdirFrom filldir d (some ia) ia.dataSize w

end

end NtfsDxe
