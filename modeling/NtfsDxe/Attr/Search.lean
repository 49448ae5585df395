import NtfsDxe.Record.MftRecord
import NtfsDxe.Unistr.Equal

/-! # Searching for attributes

`ntfs_attr_lookup` searches the mft record of an inode, or its attribute list and the records
that the list names. The search context keeps the position between the calls. Attributes in a
record and entries of a list are addressed by their index; the index behind the last one is
that of the terminator of a record and of the end of a list.
-/

namespace NtfsDxe

open Foundation LittleEndian

/-- What a search reads of an attribute in an mft record. -/
structure AttrView where
  type : Nat
  name : Name
  instanceNo : Nat
  nonResident : Bool
  value : Buffer
  deriving DecidableEq

/-- The mft record of an inode. -/
structure RecordView where
  mftNo : Nat
  seqNo : UInt16
  attrs : List AttrView
  deriving DecidableEq

structure AttrListEntry where
  type : Nat
  name : Name
  lowestVcn : Int
  mftNo : Nat
  seqNo : UInt16
  instanceNo : Nat

/-- A base inode. `typeBehind` is what is read as the type of an entry at the end of the list;
`openExtent` is what `ntfs_extent_inode_open` returns for a reference. -/
structure BaseInode where
  base : RecordView
  hasAttrList : Bool
  attrList : List AttrListEntry
  typeBehind : Nat
  openExtent : Nat → UInt16 → Option RecordView

/-- `ntfs_attr_search_ctx`; `baseAttr` is set together with `base_ntfs_ino`. -/
structure SearchCtx where
  mrec : RecordView
  attr : Nat
  isFirst : Bool
  alEntry : Option Nat
  baseAttr : Option Nat
  deriving DecidableEq

/-- `ntfs_attr_get_search_ctx`. -/
def BaseInode.searchCtx (ni : BaseInode) : SearchCtx := ⟨ni.base, 0, true, none, none⟩

/-- The arguments of a search. -/
structure AttrQuery where
  type : Nat
  name : AttrName
  ic : CaseMode
  lowestVcn : Int
  val : Option Buffer

variable (upcase : List UInt16) (q : AttrQuery)

/-! ## One record -/

def AttrQuery.valueStep (a : AttrView) : FindStep :=
  match q.val with
  | none => .found
  | some val =>
    let n := min val.length a.value.length
    let rc := memcmp (val.take n) (a.value.take n)
    if rc = 0 then
      if val.length = a.value.length then .found
      else if val.length < a.value.length then .absent
      else .next
    else if rc < 0 then .absent
    else .next

/-- Compare a name with the one that is searched for; `same` is the decision if it matches. -/
def AttrQuery.nameStep (name : Name) (same : FindStep) : FindStep :=
  match q.name with
  | .unnamed => if name ≠ [] then .absent else same
  | .null _ => same
  | .indexI30 | .other _ =>
    match namesFullCollate upcase q.ic q.name.chars name with
    | .lt => .absent
    | .gt => .next
    | .eq => same

/-- The decision of `ntfs_attr_find` at an attribute. -/
def AttrQuery.attrStep (a : AttrView) : FindStep :=
  if q.type ≠ atUnused ∧ q.type < a.type then .absent
  else if q.type = atUnused then .found
  else if a.type ≠ q.type then .next
  else q.nameStep upcase a.name (q.valueStep a)

/-- The loop of `ntfs_attr_find` over the attributes from index `i` on: where it ends. -/
def attrFindLoop : List AttrView → Nat → Nat × Except Errno Unit
  | [], i => (i, .error .enoent)
  | a :: rest, i =>
    match q.attrStep upcase a with
    | .found => (i, .ok ())
    | .absent => (i, .error .enoent)
    | .next => attrFindLoop rest (i + 1)

def SearchCtx.start (ctx : SearchCtx) : Nat := if ctx.isFirst then ctx.attr else ctx.attr + 1

def SearchCtx.attrFind (ctx : SearchCtx) : SearchCtx × Except Errno Unit :=
  if ctx.mrec.attrs.length < ctx.start then ({ ctx with isFirst := false }, .error .eio)
  else
    let out := attrFindLoop upcase q (ctx.mrec.attrs.drop ctx.start) ctx.start
    ({ ctx with isFirst := false, attr := out.1 }, out.2)

/-! ## The attribute list -/

/-- Whether the next entry still fits `lowest_vcn`. -/
def AttrQuery.nextFits (e : AttrListEntry) : Option AttrListEntry → Bool
  | none => false
  | some next =>
    q.lowestVcn ≠ 0 && next.lowestVcn ≤ q.lowestVcn && next.type = e.type &&
      next.name.length = e.name.length &&
      namesAreEqual upcase .caseSensitive next.name e.name

def AttrQuery.entryStep (e : AttrListEntry) (next : Option AttrListEntry) : FindStep :=
  if q.type = atUnused then .found
  else if q.type < e.type then .absent
  else if e.type ≠ q.type then .next
  else q.nameStep upcase e.name (if q.nextFits upcase e next then .next else .found)

inductive EntryRecord where
  | opened (r : RecordView)
  | stale
  | failed

def BaseInode.entryRecord (ni : BaseInode) (mrec : RecordView) (e : AttrListEntry) :
    EntryRecord :=
  if e.mftNo = mrec.mftNo then
    if e.seqNo ≠ mrec.seqNo then .stale else .opened mrec
  else if e.mftNo = ni.base.mftNo then .opened ni.base
  else
    match ni.openExtent e.mftNo e.seqNo with
    | some r => .opened r
    | none => .failed

/-- How the search for an entry's attribute in its record ends; `corrupt` has `ctx->attr`. -/
inductive ScanResult where
  | found (j : Nat)
  | ended
  | corrupt (attr : Nat)

def AttrQuery.valueFits (a : AttrView) : Bool :=
  q.type = atUnused ||
    match q.val with
    | none => true
    | some val => !a.nonResident && a.value.length = val.length && memcmp a.value val = 0

/-- Search the attribute of an entry in its record, from index `j` on. -/
def scanRecord (e : AttrListEntry) : List AttrView → (attr j : Nat) → ScanResult
  | [], _, _ => .ended
  | a :: rest, attr, j =>
    if e.instanceNo ≠ a.instanceNo then scanRecord e rest attr (j + 1)
    else if e.type ≠ a.type then .corrupt attr
    else if !namesAreEqual upcase .caseSensitive a.name e.name then .corrupt attr
    else if q.valueFits a then .found j
    else scanRecord e rest j (j + 1)

/-- Search the base record until there are no more matches in it. -/
def drainRecord : Nat → SearchCtx → SearchCtx × Except Errno Unit
  | 0, ctx => (ctx, .error .eio)
  | fuel + 1, ctx =>
    match ctx.attrFind upcase q with
    | (ctx, .ok _) => drainRecord fuel ctx
    | (ctx, .error e) => (ctx, .error e)

section External

variable (ni : BaseInode)

section

variable (ctx : SearchCtx)

/-- The end of a search that has not found an entry. The position in the list is kept unless
the search was for the end. -/
def listNotFound : SearchCtx × Except Errno Unit :=
  if q.type = atUnused ∨ q.type = atEnd then
    SearchCtx.attrFind upcase { q with type := atEnd } ni.searchCtx
  else drainRecord upcase q (ni.base.attrs.length + 1) ⟨ni.base, 0, true, ctx.alEntry, none⟩

/-- The context of the base record, as it was when the record was left. -/
def SearchCtx.backToBase : SearchCtx :=
  { ctx with mrec := ni.base, attr := ctx.baseAttr.getD 0 }

def listCorrupt : SearchCtx × Except Errno Unit :=
  (if ctx.mrec.mftNo ≠ ni.base.mftNo then ctx.backToBase ni else ctx, .error .eio)

/-- The loop of `ntfs_external_attr_find`, over the entries from index `i` on. -/
def attrListLoop : List AttrListEntry → Nat → SearchCtx → SearchCtx × Except Errno Unit
  | [], i, ctx => listNotFound upcase q ni { ctx with alEntry := some i }
  | e :: rest, i, ctx =>
    match q.entryStep upcase e rest.head? with
    | .absent => listNotFound upcase q ni { ctx with alEntry := some i }
    | .next => attrListLoop rest (i + 1) { ctx with alEntry := some i }
    | .found =>
      match ni.entryRecord ctx.mrec e with
      | .stale => listCorrupt ni { ctx with alEntry := some i }
      | .failed => ({ ctx with alEntry := some i }.backToBase ni, .error .eio)
      | .opened r =>
        match scanRecord upcase q e r.attrs 0 0 with
        | .found j => ({ ctx with alEntry := some i, mrec := r, attr := j }, .ok ())
        | .ended =>
          attrListLoop rest (i + 1) { ctx with alEntry := some i, mrec := r, attr := 0 }
        | .corrupt attr =>
          listCorrupt ni { ctx with alEntry := some i, mrec := r, attr := attr }

/-- The type that is read at index `i` of the list. -/
def BaseInode.typeAt (i : Nat) : Nat :=
  match ni.attrList[i]? with
  | some e => e.type
  | none => ni.typeBehind

/-- `find_attr_list_attr`: return the list itself, before the entry at index `i`. -/
def findAttrListAttr (i : Nat) (ctx : SearchCtx) : SearchCtx × Except Errno Unit :=
  if q.name ≠ .null 0 ∨ q.val ≠ none ∨ q.lowestVcn ≠ 0 then (ctx, .error .einval)
  else
    let out := SearchCtx.attrFind upcase ⟨atAttributeList, .null 0, .ignoreCase, 0, none⟩
      { ctx with mrec := ni.base, isFirst := true, attr := 0 }
    ({ out.1 with alEntry := some i, isFirst := true },
      if out.2 = .error .enoent then .error .eio else out.2)

/-- The context at the start of `ntfs_external_attr_find`. -/
def SearchCtx.enterList : SearchCtx :=
  { ctx with
    baseAttr := if ctx.mrec.mftNo = ni.base.mftNo then some ctx.attr else ctx.baseAttr }

/-- Search the list from index `i` on. -/
def searchList (i : Nat) (ctx : SearchCtx) : SearchCtx × Except Errno Unit :=
  if ni.attrList.length < i then listCorrupt ni ctx
  else attrListLoop upcase q ni (ni.attrList.drop i) i ctx

def externalAttrFind : SearchCtx × Except Errno Unit :=
  if q.type = atEnd then listNotFound upcase q ni (ctx.enterList ni)
  else if ctx.isFirst then
    if q.type = atUnused ∧ ctx.alEntry = none ∧ atAttributeList < ni.typeAt 0 then
      findAttrListAttr upcase q ni 0
        { ctx.enterList ni with alEntry := some 0, isFirst := false }
    else
      searchList upcase q ni (ctx.alEntry.getD 0)
        { ctx.enterList ni with alEntry := some (ctx.alEntry.getD 0), isFirst := false }
  else if q.type = atUnused ∧ ni.typeAt (ctx.alEntry.getD 0) < atAttributeList ∧
      atAttributeList < ni.typeAt (ctx.alEntry.getD 0 + 1) then
    findAttrListAttr upcase q ni (ctx.alEntry.getD 0 + 1)
      { ctx.enterList ni with alEntry := some (ctx.alEntry.getD 0) }
  else
    searchList upcase q ni (ctx.alEntry.getD 0 + 1)
      { ctx.enterList ni with alEntry := some (ctx.alEntry.getD 0) }

def attrLookup : SearchCtx × Except Errno Unit :=
  if !ni.hasAttrList ∨ q.type = atAttributeList then ctx.attrFind upcase q
  else externalAttrFind upcase q ni ctx

end

end External

/-! ## Enumerating -/

/-- `ntfs_attrs_walk`: a search for the next attribute, whatever it is. -/
def nextAttrQuery : AttrQuery := ⟨atUnused, .null 0, .caseSensitive, 0, none⟩

/-- Where the context stands: the number of the record and the index of the attribute. -/
def SearchCtx.position (ctx : SearchCtx) : Nat × Nat := (ctx.mrec.mftNo, ctx.attr)

/-- The attributes that up to `calls` calls return, and the error of the last one. -/
def enumerateAttrs (ni : BaseInode) : Nat → SearchCtx → List (Nat × Nat) × Option Errno
  | 0, _ => ([], none)
  | calls + 1, ctx =>
    match attrLookup upcase nextAttrQuery ni ctx with
    | (ctx, .ok _) =>
      (ctx.position :: (enumerateAttrs ni calls ctx).1, (enumerateAttrs ni calls ctx).2)
    | (_, .error e) => ([], some e)

end NtfsDxe
