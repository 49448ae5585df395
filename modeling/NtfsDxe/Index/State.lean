import NtfsDxe.Core.Machine
import NtfsDxe.Foundation.ItemTree
import NtfsDxe.Foundation.Prog

/-! # The state of an index

An index is kept in the attribute `$INDEX_ROOT` and in the blocks of the attribute
`$INDEX_ALLOCATION`, of which `$BITMAP` marks the ones in use. A context holds
the entry last looked up and the path to it. Blocks are numbered as in the
bitmap: a block's `VCN` is its number times the clusters of a block.

Memory, attributes and space for an attribute are asked for many times on the
way; the environment decides which of these requests fail.
-/

namespace NtfsDxe

open Foundation ItemTree

/-- The key and the file reference of an index entry. -/
structure Record (K P : Type) where
  key : K
  data : P
  deriving DecidableEq

/-- `INDEX_ENTRY`: the subnode, if any, is the one with the smaller keys. -/
abbrev IndexEntry (K P : Type) := Entry Nat (Record K P)

/-- The entries of an index root or an index block, the subnode of the end entry,
and the flag `LARGE_INDEX` or `INDEX_NODE`. -/
structure IndexNode (K P : Type) where
  entries : List (IndexEntry K P)
  last : Option Nat
  isNode : Bool

/-- How an operation on an index fails. -/
inductive IndexError where
  | errno (code : Errno)
  /-- A block is accessed through an attribute that is not open. -/
  | notOpen
  /-- A block without entries is split. -/
  | noMedian
  /-- A block is filled beyond its end. -/
  | overrun
  /-- The bound on the number of steps is reached. -/
  | fuel
  deriving DecidableEq

/-- What can be asked for: a search context, the opening of an attribute, the
opening of `$BITMAP` to set or to clear a bit, a new attribute, more bits, the
memory for a block or for an entry, the reading of a block, and the writing of
a block. A fresh block was not in use before, so that writing it may need space. -/
inductive Request where
  | searchCtx
  | attrOpen
  | bitmap (set : Bool)
  | attrAdd
  | bits
  | block
  | entry
  | read
  | write (fresh : Bool)
  deriving DecidableEq

/-- The results of truncating `$INDEX_ROOT`. -/
inductive Truncation where
  | ok
  | filledMft
  | error

/-- The environment: the length of the names that are the keys, the size of an
index block, and what fails at which time. -/
structure IndexEnv (K : Type) where
  nameLength : K → Nat
  blockSize : Nat
  fails : Request → Nat → Bool
  truncate : Nat → Nat → Truncation
  resizeFails : Nat → Bool
  garbageVcn : Nat

/-- The fields of a context that point to what it has to release: a search context,
a block, and the attribute `$INDEX_ALLOCATION`. -/
inductive Owned where
  | actx
  | ib
  | iaNa
  deriving DecidableEq

/-- The state of what such a field points to. -/
inductive Handle where
  | null
  | opened
  | closed
  deriving DecidableEq

/-- `ntfs_index_context`: `ib` is the number and the contents of the block read
last. The parent of `none` is the index root. -/
structure IndexContext (K P : Type) where
  hasEntry : Bool
  entry : Nat
  isInRoot : Bool
  ib : Nat × IndexNode K P
  ibDirty : Bool
  parentVcn : Nat → Option Nat
  parentPos : Nat → Nat
  pindex : Nat
  held : Owned → Handle

structure StoredIndex (K P : Type) where
  root : IndexNode K P
  rootAllocated : Nat
  blocks : Nat → Option (IndexNode K P)
  bitmap : Option (List Bool)
  hasAllocation : Bool

/-- An index, the context of an operation on it, and the time. It is noted which
requests were refused, and what was released although it had been before; the
last one comes first. -/
structure IndexWorld (K P : Type) where
  index : StoredIndex K P
  icx : IndexContext K P
  clock : Nat
  refused : List Request
  twice : List Owned

abbrev IndexM (K P : Type) := Prog (IndexWorld K P) IndexError

def maxParentVcn : Nat := 32

/-- A context as `ntfs_index_ctx_get` allocates it. -/
def IndexContext.fresh (K P : Type) : IndexContext K P where
  hasEntry := false
  entry := 0
  isInRoot := false
  ib := (0, { entries := [], last := none, isNode := false })
  ibDirty := false
  parentVcn := fun _ => some 0
  parentPos := fun _ => 0
  pindex := 0
  held := fun _ => .null

/-! ## Sizes -/

/-- The length of an entry without a subnode: the header, the fixed part of a
`FILE_NAME` and the name, rounded to eight bytes. -/
def fileNameEntryLength (nameLength : Nat) : Nat := (16 + (2 * nameLength + 66) + 7) / 8 * 8

def vcnSize : Option Nat → Nat
  | none => 0
  | some _ => 8

section

variable {K P : Type} (env : IndexEnv K)

/-- `length` of an index entry. -/
def entryLength (e : IndexEntry K P) : Nat :=
  fileNameEntryLength (env.nameLength e.item.key) + vcnSize e.child

def entriesLength : List (IndexEntry K P) → Nat
  | [] => 0
  | e :: es => entryLength env e + entriesLength es

def IndexNode.size (node : IndexNode K P) : Nat :=
  entriesLength env node.entries + 16 + vcnSize node.last

/-- `entries_offset` of an index block: the header and the update sequence array. -/
def blockEntriesOffset : Nat := (16 + (env.blockSize / 512 + 1) * 2 + 7) / 8 * 8

/-- `allocated_size` of an index block. -/
def blockAllocated : Nat := env.blockSize - 24

/-- `index_length` of an index block. -/
def IndexNode.blockLength (node : IndexNode K P) : Nat := blockEntriesOffset env + node.size env

/-- `index_length` of the index root, whose entries follow the header. -/
def IndexNode.rootLength (node : IndexNode K P) : Nat := 16 + node.size env

end

/-! ## Entries of a node -/

namespace IndexNode

variable {K P : Type}

/-- `ntfs_ie_get_vcn` of the entry at a position. -/
def vcnAt (node : IndexNode K P) (pos : Nat) : Option Nat :=
  match node.entries[pos]? with
  | some e => e.child
  | none => node.last

/-- `ntfs_ie_set_vcn` of the entry at a position. -/
def setVcn (node : IndexNode K P) (pos : Nat) (vcn : Option Nat) : IndexNode K P :=
  match node.entries[pos]? with
  | some e => { node with entries := node.entries.set pos { e with child := vcn } }
  | none => { node with last := vcn }

/-- `ntfs_ie_insert`. -/
def insert (node : IndexNode K P) (pos : Nat) (e : IndexEntry K P) : IndexNode K P :=
  { node with entries := node.entries.take pos ++ e :: node.entries.drop pos }

end IndexNode

end NtfsDxe
