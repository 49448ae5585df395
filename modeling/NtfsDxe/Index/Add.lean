import NtfsDxe.Index.State

/-! # Looking up and adding index entries

`ntfs_ie_add` looks up the place of a new entry. If there is no room, it makes
some, by enlarging the index root, by moving the root's entries to a new block,
or by splitting a block, and looks up the place again.
-/

namespace NtfsDxe

open Foundation ItemTree Prog

variable {K P : Type} [LinearOrder K] (env : IndexEnv K)

/-! ## The environment -/

def request (r : Request) : IndexM K P Unit := do
  let clock ← reads (·.clock)
  modify fun w => { w with clock := w.clock + 1 }
  if env.fails r clock then
    modify fun w => { w with refused := r :: w.refused }
    fail (.errno .enomem)

def modifyIcx (f : IndexContext K P → IndexContext K P) : IndexM K P Unit :=
  modify fun w => { w with icx := f w.icx }

def modifyIndex (f : StoredIndex K P → StoredIndex K P) : IndexM K P Unit :=
  modify fun w => { w with index := f w.index }

/-! ## The context -/

def icxParentInc : IndexM K P Unit := do
  modifyIcx fun icx => { icx with pindex := icx.pindex + 1 }
  let pindex ← reads (·.icx.pindex)
  if maxParentVcn ≤ pindex then fail (.errno .eopnotsupp)

def icxParentDec : IndexM K P Unit := do
  let pindex ← reads (·.icx.pindex)
  if pindex = 0 then fail (.errno .einval)
  else modifyIcx fun icx => { icx with pindex := icx.pindex - 1 }

/-- Set `parent_pos[pindex]`. -/
def setParentPos (pos : Nat) : IndexM K P Unit :=
  modifyIcx fun icx => { icx with parentPos := Function.update icx.parentPos icx.pindex pos }

/-- Set `parent_vcn[pindex]`. -/
def setParentVcn (vcn : Option Nat) : IndexM K P Unit :=
  modifyIcx fun icx => { icx with parentVcn := Function.update icx.parentVcn icx.pindex vcn }

def ibRead (vcn : Nat) : IndexM K P (IndexNode K P) := do
  let w ← reads id
  if w.icx.held .iaNa = .opened then
    request env .read
    match w.index.blocks vcn with
    | some node => pure node
    | none => fail (.errno .eio)
  else fail .notOpen

def ibWrite (fresh : Bool) (vcn : Nat) (node : IndexNode K P) : IndexM K P Unit := do
  let held ← reads (·.icx.held)
  if held .iaNa = .opened then
    request env (.write fresh)
    modifyIndex fun index => { index with blocks := Function.update index.blocks vcn (some node) }
  else fail .notOpen

/-- Make a field point to something else, which is not released for that. -/
def setHeld (field : Owned) (state : Handle) : IndexM K P Unit :=
  modifyIcx fun icx => { icx with held := Function.update icx.held field state }

omit [LinearOrder K] in
/-- Release what a field of the context points to. The field keeps its value, so that
it can be released once more. -/
def IndexWorld.release (field : Owned) (w : IndexWorld K P) : IndexWorld K P :=
  match w.icx.held field with
  | .null => w
  | .opened => { w with icx := { w.icx with held := Function.update w.icx.held field .closed } }
  | .closed => { w with twice := field :: w.twice }

/-- `ntfs_index_ctx_free`, which also is all that `ntfs_index_ctx_reinit` does. -/
def indexCtxFree : IndexM K P Unit := do
  let icx ← reads (·.icx)
  if icx.hasEntry then
    modify (·.release .actx)
    if icx.isInRoot = false then
      if icx.ibDirty then
        let _ ← attempt (ibWrite env false icx.ib.1 icx.ib.2)
        pure ()
      modify (·.release .ib)
    modify (·.release .iaNa)

def iaOpen : IndexM K P Unit := do
  setHeld .iaNa .null
  request env .attrOpen
  setHeld .iaNa .opened

/-! ## Looking up a key -/

/-- What `ntfs_ie_lookup` finds in a node. -/
inductive NodeLookup where
  | found (pos : Nat)
  | notFound (pos : Nat)
  | keepSearching (pos vcn : Nat)

/-- The loop of `ntfs_ie_lookup`: the position where the search in a node stops, and
whether the key is there. -/
def searchEntries (key : K) : List (IndexEntry K P) → Nat × Bool
  | [] => (0, false)
  | e :: es =>
    if key < e.item.key then (0, false)
    else if key = e.item.key then (0, true)
    else ((searchEntries key es).1 + 1, (searchEntries key es).2)

def ieLookup (key : K) (node : IndexNode K P) : NodeLookup :=
  let r := searchEntries key node.entries
  if r.2 then .found r.1
  else
    match node.vcnAt r.1 with
    | none => .notFound r.1
    | some vcn => .keepSearching r.1 vcn

def foundInRoot (pos : Nat) : IndexM K P Unit := do
  setParentVcn none
  modifyIcx fun icx => { icx with isInRoot := true, entry := pos, hasEntry := true }

def foundInBlock (vcn : Nat) (node : IndexNode K P) (pos : Nat) : IndexM K P Unit := do
  setParentVcn (some vcn)
  setHeld .ib .opened
  modifyIcx fun icx =>
    { icx with isInRoot := false, ib := (vcn, node), entry := pos, hasEntry := true }

/-- `descend_into_child_node`: whether the key is found in the block or below it. -/
def descendLookup (key : K) : Nat → Option Nat → Nat → IndexM K P Bool
  | 0, _, _ => fail .fuel
  | fuel + 1, oldVcn, vcn => do
    setParentVcn oldVcn
    icxParentInc
    let node ← ibRead env vcn
    match ieLookup key node with
    | .found pos => do
      setParentPos pos
      foundInBlock vcn node pos
      pure true
    | .notFound pos => do
      foundInBlock vcn node pos
      pure false
    | .keepSearching pos vcn' => do
      setParentPos pos
      if node.isNode then descendLookup key fuel (some vcn) vcn' else fail (.errno .eio)

/-- `ntfs_index_lookup`: whether the key is found. -/
def indexLookup (key : K) : IndexM K P Bool := do
  setHeld .actx .null
  request env .searchCtx
  setHeld .actx .opened
  let root ← reads (·.index.root)
  match ieLookup key root with
  | .found pos => do
    setParentPos pos
    foundInRoot pos
    pure true
  | .notFound pos => do
    foundInRoot pos
    pure false
  | .keepSearching pos vcn => do
    setParentPos pos
    iaOpen env
    request env .block
    descendLookup env key maxParentVcn none vcn

/-! ## The bitmap of the blocks -/

/-- `ntfs_ibm_add`: `$BITMAP` has at least eight bytes. -/
def ibmAdd : IndexM K P Unit := do
  let bitmap ← reads (·.index.bitmap)
  if bitmap.isNone then
    request env .attrAdd
    modifyIndex fun index => { index with bitmap := some (List.replicate 64 false) }

/-- The bitmap enlarged to the next multiple of eight bytes. -/
def growBits (bits : List Bool) : List Bool :=
  bits ++ List.replicate ((bits.length / 8 + 8) / 8 * 64 - bits.length) false

def ibmModify (vcn : Nat) (set : Bool) : IndexM K P Unit := do
  request env (.bitmap set)
  let bitmap ← reads (·.index.bitmap)
  match bitmap with
  | none => fail (.errno .enoent)
  | some bits => do
    if set = true ∧ bits.length ≤ vcn then
      request env .bits
      modifyIndex fun index => { index with bitmap := some (growBits bits) }
    let bitmap ← reads (·.index.bitmap)
    match bitmap with
    | none => fail (.errno .enoent)
    | some bits =>
      if vcn < bits.length then
        modifyIndex fun index => { index with bitmap := some (bits.set vcn set) }
      else fail (.errno .eio)

def firstClear : List Bool → Nat
  | [] => 0
  | b :: bits => if b then firstClear bits + 1 else 0

def ibmGetFree : IndexM K P Nat := do
  request env .attrOpen
  let bitmap ← reads (·.index.bitmap)
  match bitmap with
  | none => fail (.errno .enoent)
  | some bits => do
    ibmModify env (firstClear bits) true
    pure (firstClear bits)

/-! ## Making room -/

/-- Whether an operation is done or has to be tried again from the lookup on:
`STATUS_OK` and `STATUS_KEEP_SEARCHING`. -/
inductive Progress where
  | ok
  | keepSearching

/-- `ntfs_ir_truncate`: whether the index root could be resized, or the mft record
is full. -/
def irTruncate (size : Nat) : IndexM K P Bool := do
  request env .attrOpen
  let clock ← reads (·.clock)
  modify fun w => { w with clock := w.clock + 1 }
  match env.truncate size clock with
  | .ok => do
    request env .searchCtx
    modifyIndex fun index => { index with rootAllocated := size }
    pure true
  | .filledMft => pure false
  | .error => fail (.errno .eio)

/-- The part of `ntfs_ia_add` that adds `$INDEX_ALLOCATION`. -/
def allocationAdd : IndexM K P Unit := do
  let hasAllocation ← reads (·.index.hasAllocation)
  if hasAllocation = false then
    request env .attrAdd
    modifyIndex fun index => { index with hasAllocation := true }

def iaAdd : IndexM K P Unit := do
  ibmAdd env
  allocationAdd env
  iaOpen env

/-- `ntfs_ir_nill` and the resizing of the index root that follows it. Resizing
can only fail if the root grows, and then leaves an end entry without a valid
subnode. -/
def irNill (vcn : Nat) : IndexM K P Unit := do
  request env .searchCtx
  let w ← reads id
  modify fun w =>
    { w with
      clock := w.clock + 1
      index := { w.index with
        root := { entries := [], last := some env.garbageVcn, isNode := true }
        rootAllocated := 40 } }
  if w.index.rootAllocated < 40 ∧ env.resizeFails w.clock = true then fail (.errno .enospc)
  else
    modifyIndex fun index => { index with root := { index.root with last := some vcn } }

/-- The part of `ntfs_ir_reparent` after a block was reserved: write the entries of
the root to it, and make it the only subnode. -/
def irToBlock (vcn : Nat) : IndexM K P Unit := do
  request env .searchCtx
  request env .block
  let root ← reads (·.index.root)
  if blockAllocated env < root.blockLength env then fail .overrun
  ibWrite env true vcn root
  irNill env vcn

/-- The part of `ntfs_ir_reparent` after the attributes for blocks were added. -/
def irToFreeBlock : IndexM K P Unit := do
  let vcn ← ibmGetFree env
  let r ← attempt (irToBlock env vcn)
  match r with
  | .ok _ => pure ()
  | .error e => do
    let _ ← attempt (ibmModify env vcn false)
    fail e

def irReparent : IndexM K P Unit := do
  request env .searchCtx
  let root ← reads (·.index.root)
  if root.isNode = false then iaAdd env
  irToFreeBlock env

def irMakeSpace (size : Nat) : IndexM K P Progress := do
  let resized ← irTruncate env size
  if resized then pure .ok
  else do
    irReparent env
    pure .keepSearching

/-! ## Splitting -/

/-- `ntfs_ih_insert`: the entry gets the subnode of the one before which it is
inserted, and that one gets the new subnode. -/
def ihInsert (node : IndexNode K P) (e : IndexEntry K P) (newVcn pos : Nat) :
    IndexM K P (IndexNode K P) := do
  request env .entry
  if e.child.isNone then request env .entry
  pure ((node.setVcn pos (some newVcn)).insert pos { e with child := node.vcnAt pos })

def irInsertMedian (median : IndexEntry K P) (newVcn : Nat) : IndexM K P Progress := do
  request env .searchCtx
  let root ← reads (·.index.root)
  let size := root.rootLength env + entryLength env median + if median.child.isNone then 8 else 0
  let r ← irMakeSpace env size
  match r with
  | .keepSearching => pure .keepSearching
  | .ok => do
    request env .searchCtx
    let w ← reads id
    let root ← ihInsert env w.index.root median newVcn (w.icx.parentPos w.icx.pindex)
    modifyIndex fun index => { index with root := root }
    pure .ok

def ibCopyTail (node : IndexNode K P) (median newVcn : Nat) : IndexM K P Unit := do
  request env .block
  ibWrite env true newVcn { node with entries := node.entries.drop (median + 1) }

def ibCutTail (vcn : Nat) (node : IndexNode K P) (median : Nat) : IndexM K P Unit :=
  ibWrite env false vcn
    { node with
      entries := node.entries.take median
      last := if node.last.isSome then node.vcnAt median else node.last }

/-- The part of `ntfs_ib_split` that copies the tail and inserts the median into the
parent. -/
def ibMoveMedian (ibInsert : IndexEntry K P → Nat → IndexM K P Progress) (node : IndexNode K P)
    (median : Nat) (e : IndexEntry K P) (newVcn : Nat) : IndexM K P Progress := do
  ibCopyTail env node median newVcn
  let w ← reads id
  match w.icx.parentVcn w.icx.pindex with
  | none => irInsertMedian env e newVcn
  | some _ => ibInsert e newVcn

/-- `ntfs_ib_split`, given how `ntfs_ib_insert` inserts a median into a parent block. -/
def ibSplitWith (ibInsert : IndexEntry K P → Nat → IndexM K P Progress) (vcn : Nat)
    (node : IndexNode K P) : IndexM K P Progress := do
  icxParentDec
  let median := node.entries.length / 2
  match node.entries[median]? with
  | none => fail .noMedian
  | some e => do
    let newVcn ← ibmGetFree env
    let r ← attempt (ibMoveMedian env ibInsert node median e newVcn)
    match r with
    | .ok .ok => do
      ibCutTail env vcn node median
      pure .ok
    | .ok .keepSearching => do
      let _ ← attempt (ibmModify env newVcn false)
      pure .keepSearching
    | .error e => do
      let _ ← attempt (ibmModify env newVcn false)
      fail e

/-- `ntfs_ib_insert`, with a bound on the number of blocks split on the way up. -/
def ibInsert : Nat → IndexEntry K P → Nat → IndexM K P Progress
  | 0, _, _ => fail .fuel
  | fuel + 1, e, newVcn => do
    request env .block
    let w ← reads id
    match w.icx.parentVcn w.icx.pindex with
    | none => fail (.errno .einval)
    | some vcn => do
      let node ← ibRead env vcn
      if blockAllocated env < node.blockLength env + entryLength env e + 8 then do
        let _ ← ibSplitWith env (ibInsert fuel) vcn node
        pure .keepSearching
      else do
        let w ← reads id
        let node ← ihInsert env node e newVcn (w.icx.parentPos w.icx.pindex)
        ibWrite env false vcn node
        pure .ok

def ibSplit (vcn : Nat) (node : IndexNode K P) : IndexM K P Progress :=
  ibSplitWith env (ibInsert env maxParentVcn) vcn node

/-! ## Adding an entry -/

def insertAtEntry (e : IndexEntry K P) : IndexM K P Unit := do
  let icx ← reads (·.icx)
  if icx.isInRoot then
    modifyIndex fun index => { index with root := index.root.insert icx.entry e }
  else
    modifyIcx fun icx =>
      { icx with ib := (icx.ib.1, icx.ib.2.insert icx.entry e), ibDirty := true }

def ieAdd : Nat → IndexEntry K P → IndexM K P Unit
  | 0, _ => fail .fuel
  | fuel + 1, e => do
    let found ← indexLookup env e.item.key
    if found then fail (.errno .eexist)
    else do
      let w ← reads id
      if w.icx.isInRoot then
        let size := w.index.root.rootLength env + entryLength env e
        if size ≤ w.index.rootAllocated then insertAtEntry e
        else do
          let _ ← irMakeSpace env size
          indexCtxFree env
          ieAdd fuel e
      else
        let size := w.icx.ib.2.blockLength env + entryLength env e
        if size ≤ blockAllocated env then insertAtEntry e
        else do
          let _ ← ibSplit env w.icx.ib.1 w.icx.ib.2
          indexCtxFree env
          ieAdd fuel e

/-- `ntfs_ie_add` followed by `ntfs_index_ctx_put`. -/
def ieAddPut (fuel : Nat) (e : IndexEntry K P) : IndexM K P Unit := do
  let r ← attempt (ieAdd env fuel e)
  indexCtxFree env
  match r with
  | .ok _ => pure ()
  | .error err => fail err

omit [LinearOrder K] in
def IndexWorld.start (index : StoredIndex K P) (clock : Nat) : IndexWorld K P :=
  { index := index, icx := IndexContext.fresh K P, clock := clock, refused := [], twice := [] }

end NtfsDxe
