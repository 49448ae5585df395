import NtfsDxe.Runlist.MappingPairs
import NtfsDxe.Foundation.Splice

/-! # Merging runlists

`ntfs_runlists_merge` puts the runs of a source runlist into a hole or an
unmapped run of a destination runlist, or after its end. The destination is an
array in memory: elements are moved inside it, and what was in the array before
stays in the cells behind a list that became shorter. The last step, which
restores the end of the attribute, reads such cells.

The sums are sums of attribute clusters up to the end of a runlist, and are
64-bit values whenever the ends are.
-/

namespace NtfsDxe

open Foundation

/-- Memory for runlists: which allocations, in bytes, succeed, and what a cell
contains before it is first written. -/
structure RunlistHeap where
  grants : Nat → Bool
  fresh : RunlistElement

/-- `(size * sizeof(runlist_element) + 0xfff) & ~0xfff`. -/
def pageBytes (size : Nat) : Nat := (size * sizeofRunlistElement + 4095) / 4096 * 4096

section

variable (heap : RunlistHeap)

/-- `ntfs_rl_realloc`: the cells up to `newSize` exist afterwards. -/
def rlRealloc (rl : List RunlistElement) (oldSize newSize : Nat) :
    Except Failure (List RunlistElement) :=
  if pageBytes oldSize = pageBytes newSize ∨ heap.grants (pageBytes newSize) then
    .ok (rl ++ List.replicate (newSize - rl.length) heap.fresh)
  else .error (.errno .enomem)

/-- `rl[i]`. A cell that was never written has arbitrary contents. -/
def cell (rl : List RunlistElement) (i : Nat) : RunlistElement :=
  rl.getD i heap.fresh

def rlMm (base : List RunlistElement) (dst src size : Nat) : List RunlistElement :=
  if dst ≠ src ∧ 0 < size then splice base dst ((base.drop src).take size) else base

def rlMc (dstBase : List RunlistElement) (dst : Nat) (srcBase : List RunlistElement)
    (src size : Nat) : List RunlistElement :=
  if 0 < size then splice dstBase dst ((srcBase.drop src).take size) else dstBase

/-- `rl->vcn + rl->length`. -/
def RunlistElement.stopVcn (e : RunlistElement) : Int := e.vcn + e.length

def rlAreMergeable (dst src : RunlistElement) : Bool :=
  if dst.lcn = lcnRlNotMapped ∧ src.lcn = lcnRlNotMapped then true
  else if dst.stopVcn ≠ src.vcn then false
  else if 0 ≤ dst.lcn ∧ 0 ≤ src.lcn ∧ dst.lcn + dst.length = src.lcn then true
  else if dst.lcn = lcnHole ∧ src.lcn = lcnHole then true
  else false

/-- `__ntfs_rl_merge`. -/
def RunlistElement.merge (dst src : RunlistElement) : RunlistElement :=
  { dst with length := dst.length + src.length }

/-! ## The four ways to put a runlist into another -/

/-- `if (dst[i].lcn == LCN_ENOENT) dst[i].vcn = dst[i-1].vcn + dst[i-1].length`. -/
def fixEndMarker (dst : List RunlistElement) (marker : Nat) : List RunlistElement :=
  if (cell heap dst marker).lcn = lcnEnoent then
    dst.modify marker fun e => { e with vcn := (cell heap dst (marker - 1)).stopVcn }
  else dst

section

variable (dst : List RunlistElement) (dsize : Nat) (src : List RunlistElement) (ssize loc : Nat)

/-- `ntfs_rl_append`: `src` ends the hole at `loc`. -/
def rlAppend :
    Except Failure (List RunlistElement) := do
  let right := decide (loc + 1 < dsize) &&
    rlAreMergeable (cell heap src (ssize - 1)) (cell heap dst (loc + 1))
  let dst ← rlRealloc heap dst dsize (dsize + ssize - right.toNat)
  let src :=
    if right then src.modify (ssize - 1) fun e => e.merge (cell heap dst (loc + 1)) else src
  let marker := loc + ssize + 1
  let dst := rlMm dst marker (loc + 1 + right.toNat) (dsize - loc - 1 - right.toNat)
  let dst := rlMc dst (loc + 1) src 0 ssize
  -- Adjust the size of the preceding hole.
  let dst := dst.modify loc fun e => { e with length := (cell heap dst (loc + 1)).vcn - e.vcn }
  return fixEndMarker heap dst marker

/-- The element for a gap between the end of `dst` and the start of `src`. -/
def fillGap (dst : List RunlistElement) (loc : Nat) : List RunlistElement :=
  let vcn := if 0 < loc then (cell heap dst (loc - 1)).stopVcn else 0
  dst.set loc
    { vcn := vcn, lcn := lcnRlNotMapped, length := (cell heap dst (loc + 1)).vcn - vcn }

/-- Adjust the first run after an insertion: its start, and its length if it is a
hole or unmapped. -/
def adjustAfter (dst : List RunlistElement) (marker : Nat) : List RunlistElement :=
  let dst := dst.modify marker fun e => { e with vcn := (cell heap dst (marker - 1)).stopVcn }
  let after := (cell heap dst marker).lcn
  if after = lcnHole ∨ after = lcnRlNotMapped then
    dst.modify marker fun e => { e with length := (cell heap dst (marker + 1)).vcn - e.vcn }
  else dst

/-- `ntfs_rl_insert`: `src` starts at the hole at `loc`, or at or after the end of `dst`. -/
def rlInsert :
    Except Failure (List RunlistElement) := do
  let left := decide (loc ≠ 0) && rlAreMergeable (cell heap dst (loc - 1)) (cell heap src 0)
  let mergedLength :=
    (cell heap dst (loc - 1)).length + if left then (cell heap src 0).length else 0
  let disc :=
    if loc = 0 then decide (0 < (cell heap src 0).vcn)
    else decide ((cell heap dst (loc - 1)).vcn + mergedLength < (cell heap src 0).vcn)
  let dst ← rlRealloc heap dst dsize (dsize + ssize - left.toNat + disc.toNat)
  let dst := if left then dst.modify (loc - 1) fun e => e.merge (cell heap src 0) else dst
  let marker := loc + ssize - left.toNat + disc.toNat
  let dst := rlMm dst marker loc (dsize - loc)
  let dst := rlMc dst (loc + disc.toNat) src left.toNat (ssize - left.toNat)
  let dst := adjustAfter heap dst marker
  return if disc then fillGap heap dst loc else dst

/-- The allocation of `ntfs_rl_replace`: fewer cells are needed when ends are joined. -/
def rlReplaceGrow (dst : List RunlistElement) (dsize ssize : Nat) (left right : Bool) :
    Except Failure (List RunlistElement) :=
  if 1 + left.toNat + right.toNat < ssize then
    rlRealloc heap dst dsize (dsize + (ssize - 1 - left.toNat - right.toNat))
  else .ok dst

/-- `ntfs_rl_replace`: `src` takes the place of the element at `loc`. -/
def rlReplace : Except Failure (List RunlistElement) := do
  let right := decide (loc + 1 < dsize) &&
    rlAreMergeable (cell heap src (ssize - 1)) (cell heap dst (loc + 1))
  let left := decide (0 < loc) && rlAreMergeable (cell heap dst (loc - 1)) (cell heap src 0)
  let dst ← rlReplaceGrow heap dst dsize ssize left right
  let src :=
    if right then src.modify (ssize - 1) fun e => e.merge (cell heap dst (loc + 1)) else src
  let dst := if left then dst.modify (loc - 1) fun e => e.merge (cell heap src 0) else dst
  let tail := loc + right.toNat + 1
  let marker := loc + ssize - left.toNat
  let dst := rlMm dst marker tail (dsize - tail)
  let dst := rlMc dst loc src left.toNat (ssize - left.toNat)
  return if 0 < dsize - tail then fixEndMarker heap dst marker else dst

/-- `ntfs_rl_split`: `src` divides the hole at `loc`. -/
def rlSplit :
    Except Failure (List RunlistElement) := do
  let dst ← rlRealloc heap dst dsize (dsize + ssize + 1)
  let dst := rlMm dst (loc + 1 + ssize) loc (dsize - loc)
  let dst := rlMc dst (loc + 1) src 0 ssize
  let dst := dst.modify loc fun e => { e with length := (cell heap dst (loc + 1)).vcn - e.vcn }
  let dst := dst.modify (loc + ssize + 1) fun e =>
    { e with vcn := (cell heap dst (loc + ssize)).stopVcn }
  return dst.modify (loc + ssize + 1) fun e =>
    { e with length := (cell heap dst (loc + ssize + 2)).vcn - e.vcn }

end

/-! ## The merge -/

/-- The first cell from `i` on with the property `p`. -/
def scan (p : RunlistElement → Bool) (rl : List RunlistElement) (i : Nat) : Except Failure Nat :=
  match (rl.drop i).findIdx? p with
  | some k => .ok (i + k)
  | none => .error .outOfBounds

/-- The first cell of length zero from `i` on. -/
def scanEnd (rl : List RunlistElement) (i : Nat) : Except Failure Nat :=
  scan (fun e => decide (e.length = 0)) rl i

/-- `for (sfinal = send; sfinal >= 0 && srl[sfinal].lcn < LCN_HOLE; sfinal--)`; the
caller has already found an element that stops the loop. -/
def lastMapped (heap : RunlistHeap) (srl : List RunlistElement) : Nat → Nat
  | 0 => 0
  | i + 1 => if (cell heap srl (i + 1)).lcn < lcnHole then lastMapped heap srl i else i + 1

/-- A failing allocation after the destination was changed forces a null
pointer access. -/
def rlReallocCritical (rl : List RunlistElement) (oldSize newSize : Nat) :
    Except Failure (List RunlistElement) :=
  match rlRealloc heap rl oldSize newSize with
  | .ok rl => .ok rl
  | .error _ => .error .outOfBounds

/-- Make room for `count` cells after `ds` if no slots are left there. -/
def moreSlots (drl : List RunlistElement) (oldSize newSize slots count : Nat) :
    Except Failure (List RunlistElement × Nat) :=
  match slots with
  | 0 => (rlReallocCritical heap drl oldSize newSize).map fun drl => (drl, count)
  | slots + 1 => .ok (drl, slots + 1)

/-- The element that is going to end at the marker: the one at `ds` if it is
unmapped, or else an unmapped one after it. -/
def unmappedLast (drl : List RunlistElement) (ds slots : Nat) :
    Except Failure (List RunlistElement × Nat × Nat) :=
  if (cell heap drl ds).lcn ≠ lcnRlNotMapped then do
    let (drl, slots) ← moreSlots heap drl ds (ds + 2) slots 2
    let drl :=
      if slots ≠ 1 then
        drl.modify (ds + 1) fun e => { e with vcn := (cell heap drl ds).stopVcn }
      else drl
    return (drl.modify (ds + 1) fun e => { e with lcn := lcnRlNotMapped }, ds + 1, slots - 1)
  else .ok (drl, ds, slots)

/-- The unmapped element up to `markerVcn` and the terminator after it. -/
def extendToMarker (drl : List RunlistElement) (ds slots : Nat) (markerVcn : Int) :
    Except Failure (List RunlistElement) := do
  let (drl, ds, slots) ← unmappedLast heap drl ds slots
  let drl := drl.modify ds fun e => { e with length := markerVcn - e.vcn }
  let (drl, _) ← moreSlots heap drl (ds + 1) (ds + 2) slots 1
  return drl.set (ds + 1) { vcn := markerVcn, lcn := lcnEnoent, length := 0 }

/-- The marker code at the end of `ntfs_runlists_merge_i`: re-attach the end of
the attribute. The search for the terminator starts at its old place. -/
def restoreMarker (drl : List RunlistElement) (dend : Nat) (markerVcn : Int) :
    Except Failure (List RunlistElement) := do
  let ds ← scanEnd drl dend
  let last := cell heap drl ds
  if markerVcn < last.vcn then return drl
  else if last.vcn = markerVcn then return drl.modify ds fun e => { e with lcn := lcnEnoent }
  else if last.lcn = lcnEnoent then extendToMarker heap drl (ds - 1) 1 markerVcn
  else extendToMarker heap drl ds 0 markerVcn

/-- What `ntfs_runlists_merge_i` finds out about its two runlists before it
changes them. -/
structure MergePlan where
  start : Bool
  finish : Bool
  ss : Nat
  sstart : Nat
  dins : Nat
  dend : Nat
  marker : Option Int

/-- The searches and checks of `ntfs_runlists_merge_i`. -/
def mergePlan (drl srl : List RunlistElement) : Except Failure MergePlan := do
  let si ← scan (fun e => decide (e.length = 0) || decide (lcnHole ≤ e.lcn)) srl 0
  let first := cell heap srl si
  if first.length = 0 then throw (.errno .einval)
  let dins ← scan (fun e => decide (e.length = 0) || decide (first.vcn < e.stopVcn)) drl 0
  let hole := cell heap drl dins
  if hole.vcn = first.vcn ∧ 0 ≤ hole.lcn ∧ 0 ≤ first.lcn then throw (.errno .erange)
  let send ← scanEnd srl si
  let dend ← scanEnd drl dins
  let marker := if (cell heap srl send).lcn = lcnEnoent then some (cell heap srl send).vcn else none
  let sfinal := lastMapped heap srl send
  let last := cell heap srl (send - 1)
  let start := decide (hole.lcn < lcnRlNotMapped) || decide (hole.vcn = first.vcn)
  let finish := decide (lcnRlNotMapped ≤ hole.lcn) && decide (hole.stopVcn ≤ last.stopVcn)
  -- Or we'll lose an end marker.
  let ss := sfinal - si + 1 + (finish && decide (hole.length = 0)).toNat
  let finish := finish && !(marker.isSome && decide (last.vcn < hole.stopVcn))
  return { start, finish, ss, sstart := si, dins, dend, marker }

/-- The case distinction of `ntfs_runlists_merge_i`. -/
def mergeAs (drl srl : List RunlistElement) (plan : MergePlan) :
    Except Failure (List RunlistElement) :=
  let src := srl.drop plan.sstart
  match plan.start, plan.finish with
  | true, true => rlReplace heap drl (plan.dend + 1) src plan.ss plan.dins
  | true, false => rlInsert heap drl (plan.dend + 1) src plan.ss plan.dins
  | false, true => rlAppend heap drl (plan.dend + 1) src plan.ss plan.dins
  | false, false => rlSplit heap drl (plan.dend + 1) src plan.ss plan.dins

def completeFront (srl : List RunlistElement) : Except Failure (List RunlistElement) :=
  if (cell heap srl 0).vcn = 0 then .ok srl
  else do
    let dend ← scanEnd srl 0
    let drl ← rlRealloc heap srl (dend + 1) (dend + 2)
    let drl := rlMm drl 1 0 (dend + 1)
    return drl.set 0 { vcn := 0, lcn := lcnRlNotMapped, length := (cell heap drl 1).vcn }

/-- `ntfs_runlists_merge`; a null runlist is `none`. -/
def runlistsMerge :
    (drl srl : Option (List RunlistElement)) → Except Failure (Option (List RunlistElement))
  | drl, none => .ok drl
  | none, some srl => return some (← completeFront heap srl)
  | some drl, some srl => do
    let plan ← mergePlan heap drl srl
    let merged ← mergeAs heap drl srl plan
    match plan.marker with
    | none => return some merged
    | some markerVcn => return some (← restoreMarker heap merged plan.dend markerVcn)

/-- `ntfs_mapping_pairs_decompress`: the runs of an extent are merged into the
runlist of the extents read before. -/
def mappingPairsDecompressInto (vol : Volume) (attr : AttrRecord) :
    Option (List RunlistElement) → Except Failure (List RunlistElement)
  | none => mappingPairsDecompress vol attr
  | some oldRl => do
    let rl ← mappingPairsDecompress vol attr
    match ← runlistsMerge heap (some oldRl) (some rl) with
    | some merged => return merged
    | none => throw (.errno .einval)

end

end NtfsDxe
