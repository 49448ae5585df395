import NtfsDxe.Foundation.LittleEndian
import NtfsDxe.Runlist.Basic

/-! # Mapping pairs arrays

A non-resident attribute record stores its runlist as a sequence of pairs: a
header byte with the two field widths, the run length, and the difference to
the previous cluster number. The definitions follow `runlist.c`: the size of an
array, its construction in a bounded buffer, and its expansion back into a
runlist.
-/

namespace NtfsDxe

open Foundation

/-- The fields of `ntfs_volume` read by the mapping pairs code. -/
structure Volume where
  majorVer : Nat
  clusterSize : Nat
  clusterSizeBits : Nat
  clusterSize_eq : clusterSize = 2 ^ clusterSizeBits

/-! ## Sizes -/

/-- The `do`-`while` of `ntfs_get_nr_significant_bytes`: the number of passes. -/
def shiftPasses (l : Nat) : Nat :=
  if l / 256 = 0 then 1 else 1 + shiftPasses (l / 256)

def getNrSignificantBytes (n : Int) : Nat :=
  let l := if n < 0 then (-n - 1).toNat else n.toNat
  if 128 ≤ l then 1 + shiftPasses (l / 128) else 1

/-- `while (rl->length && start_vcn >= rl[1].vcn) rl++`. -/
def skipTo (startVcn : Int) : List RunlistElement → List RunlistElement
  | [] => []
  | e :: rest =>
    if e.length ≠ 0 ∧ nextVcn rest ≤ startVcn then skipTo startVcn rest else e :: rest

/-- The error reported for a run that is neither mapped nor a hole. -/
def runErrno (e : RunlistElement) : Errno :=
  if e.lcn = lcnRlNotMapped then .einval else .eio

/-- `rl->length < 0 || rl->lcn < LCN_HOLE`. -/
def BadRun (e : RunlistElement) : Prop := e.length < 0 ∨ e.lcn < lcnHole

instance (e : RunlistElement) : Decidable (BadRun e) := inferInstanceAs (Decidable (_ ∨ _))

section

variable (vol : Volume)

/-- Whether the cluster number of a run is stored: before NTFS 3.0 also for holes. -/
def storesLcn (e : RunlistElement) : Bool :=
  decide (0 ≤ e.lcn) || decide (vol.majorVer < 3)

/-- The loop over the full runs in `ntfs_get_size_for_mapping_pairs`. -/
def sizeLoop (vol : Volume) (maxSize : Int) :
    List RunlistElement → (prevLcn rls : Int) → Except Failure Int
  | [], _, _ => .error .outOfBounds
  | e :: rest, prevLcn, rls =>
    if e.length = 0 ∨ maxSize < rls then .ok rls
    else if BadRun e then .error (.errno (runErrno e))
    else if storesLcn vol e then
      sizeLoop vol maxSize rest e.lcn
        (rls + (1 + getNrSignificantBytes e.length) + getNrSignificantBytes (s64 (e.lcn - prevLcn)))
    else sizeLoop vol maxSize rest prevLcn (rls + (1 + getNrSignificantBytes e.length))

/-- The cluster number of a run entered `delta` clusters after its start. -/
def partialLcn (e : RunlistElement) (delta : Int) : Int :=
  if 0 ≤ e.lcn then s64 (e.lcn + delta) else e.lcn

/-- The part of `ntfs_get_size_for_mapping_pairs` after the start was found. -/
def sizeFrom (startVcn maxSize : Int) :
    List RunlistElement → Except Failure Int
  | [] => .error .outOfBounds
  | e :: rest =>
    if (e.length = 0 ∧ e.vcn < startVcn) ∨ startVcn < e.vcn then .error (.errno .einval)
    else if e.vcn < startVcn then
      let delta := startVcn - e.vcn
      if BadRun e then .error (.errno (runErrno e))
      else if storesLcn vol e then
        let prevLcn := partialLcn e delta
        sizeLoop vol maxSize rest prevLcn
          (1 + (1 + getNrSignificantBytes (e.length - delta)) + getNrSignificantBytes prevLcn)
      else sizeLoop vol maxSize rest 0 (1 + (1 + getNrSignificantBytes (e.length - delta)))
    else sizeLoop vol maxSize (e :: rest) 0 1

/-- `ntfs_get_size_for_mapping_pairs`; a null runlist is `none`. -/
def getSizeForMappingPairs (rl : Option (List RunlistElement)) (startVcn maxSize : Int) :
    Except Failure Int :=
  if startVcn < 0 then .error (.errno .einval)
  else match rl with
    | none => if startVcn = 0 then .ok 1 else .error (.errno .einval)
    | some rl => sizeFrom vol startVcn maxSize (skipTo startVcn rl)

/-! ## Construction -/

/-- `ntfs_write_significant_bytes`: the bytes written so far stay in the buffer
when the destination turns out to be too small, which is the result `none`. -/
def writeSignificantBytes (buf : Buffer) (dst : Nat) (dstMax l : Int) :
    Except Failure (Buffer × Option Nat) :=
  if dstMax < dst then .ok (buf, none)
  else
    match store buf dst (SignedBytes.lowByte l) with
    | .error failure => .error failure
    | .ok buf =>
      if 0x7f < l ∨ l < -0x80 then
        match writeSignificantBytes buf (dst + 1) dstMax (l >>> (8 : Nat)) with
        | .error failure => .error failure
        | .ok (buf, count) => .ok (buf, count.map (· + 1))
      else .ok (buf, some 1)
termination_by l.natAbs
decreasing_by
  rw [SignedBytes.shiftRight_eight]
  omega

/-- Write the change of cluster number of a pair, which is not stored for a hole
on NTFS 3.0 and later. -/
def writeChange (buf : Buffer) (pos : Nat) (dstMax : Int) :
    Option Int → Except Failure (Buffer × Option Nat)
  | none => .ok (buf, some 0)
  | some change => writeSignificantBytes buf pos dstMax change

/-- Write one mapping pair at `dst`: length, change of cluster number, and the
header byte last. The result is the position after the pair, or `none` when the
pair and the terminator do not fit. -/
def writePair (buf : Buffer) (dst : Nat) (dstMax length : Int) (lcnChange : Option Int) :
    Except Failure (Buffer × Option Nat) := do
  let (buf, lenLen) ← writeSignificantBytes buf (dst + 1) dstMax length
  match lenLen with
  | none => return (buf, none)
  | some lenLen =>
    let (buf, lcnLen) ← writeChange buf (dst + 1 + lenLen) dstMax lcnChange
    match lcnLen with
    | none => return (buf, none)
    | some lcnLen =>
      let dstNext := dst + lenLen + lcnLen + 1
      if dstMax < dstNext then return (buf, none)
      else
        let buf ← store buf dst (UInt8.ofNat (lcnLen <<< 4 ||| lenLen))
        return (buf, some dstNext)

/-- The outcome of `ntfs_mapping_pairs_build` once it wrote a terminator: the
buffer, the element after the last stored run, and whether everything fitted. -/
structure BuildResult where
  complete : Bool
  dst : Buffer
  stopRl : Option (List RunlistElement)

/-- Add the terminator byte and report the runs that were not stored. -/
def finishBuild (complete : Bool) (buf : Buffer) (dst : Nat) (rl : List RunlistElement) :
    Except Failure BuildResult := do
  let buf ← store buf dst 0
  return { complete := complete, dst := buf, stopRl := some rl }

/-- The loop over the full runs in `ntfs_mapping_pairs_build`. -/
def buildLoop (vol : Volume) (dstMax : Int) :
    List RunlistElement → (prevLcn : Int) → (dst : Nat) → Buffer → Except Failure BuildResult
  | [], _, _, _ => .error .outOfBounds
  | e :: rest, prevLcn, dst, buf =>
    if e.length = 0 then finishBuild true buf dst (e :: rest)
    else if BadRun e then .error (.errno (runErrno e))
    else do
      let change := if storesLcn vol e then some (s64 (e.lcn - prevLcn)) else none
      let (buf, dstNext) ← writePair buf dst dstMax e.length change
      match dstNext with
      | none => finishBuild false buf dst (e :: rest)
      | some dstNext =>
        buildLoop vol dstMax rest (if storesLcn vol e then e.lcn else prevLcn) dstNext buf

/-- The part of `ntfs_mapping_pairs_build` after the start was found. -/
def buildFrom (startVcn dstMax : Int) (buf : Buffer) :
    List RunlistElement → Except Failure BuildResult
  | [] => .error .outOfBounds
  | e :: rest =>
    if (e.length = 0 ∧ e.vcn < startVcn) ∨ startVcn < e.vcn then .error (.errno .einval)
    else if e.vcn < startVcn then
      let delta := startVcn - e.vcn
      if BadRun e then .error (.errno (runErrno e))
      else do
        let change := if storesLcn vol e then some (partialLcn e delta) else none
        let (buf, dstNext) ← writePair buf 0 dstMax (e.length - delta) change
        match dstNext with
        | none => finishBuild false buf 0 (e :: rest)
        | some dstNext => buildLoop vol dstMax rest (change.getD 0) dstNext buf
    else buildLoop vol dstMax (e :: rest) 0 0 buf

/-- `ntfs_mapping_pairs_build` into a buffer of `dst_len` bytes. -/
def mappingPairsBuild (dst : Buffer) (rl : Option (List RunlistElement)) (startVcn : Int) :
    Except Failure BuildResult :=
  if startVcn < 0 then .error (.errno .einval)
  else match rl with
    | none =>
      if startVcn ≠ 0 then .error (.errno .einval)
      else if dst.length < 1 then .ok { complete := false, dst := dst, stopRl := none }
      else do
        let buf ← store dst 0 0
        return { complete := true, dst := buf, stopRl := none }
    | some rl => buildFrom vol startVcn (dst.length - 1) dst (skipTo startVcn rl)

/-! ## Expansion -/

/-- A non-resident attribute record: the memory from its start on, in which there is at least
the header of such a record. -/
structure AttrRecord where
  mem : Buffer
  header_le : 64 ≤ mem.length

namespace AttrRecord

variable (attr : AttrRecord)

@[irreducible]
def length : Nat := LittleEndian.read attr.mem 4 4

def nonResident : Bool := LittleEndian.read attr.mem 8 1 != 0

@[irreducible]
def lowestVcn : Int := s64 (LittleEndian.read attr.mem 16 8)

@[irreducible]
def highestVcn : Int := s64 (LittleEndian.read attr.mem 24 8)

@[irreducible]
def mappingPairsOffset : Nat := LittleEndian.read attr.mem 32 2

@[irreducible]
def allocatedSize : Int := s64 (LittleEndian.read attr.mem 40 8)

lemma inRange : IsS64 attr.lowestVcn ∧ IsS64 attr.highestVcn ∧ IsS64 attr.allocatedSize :=
  ⟨by unfold lowestVcn; exact s64_isS64 _, by unfold highestVcn; exact s64_isS64 _,
    by unfold allocatedSize; exact s64_isS64 _⟩

end AttrRecord

/-- Shift in the `k` bytes after `pos`, from the last to the first. -/
def readDeltaLoop (mem : Buffer) (pos : Nat) : Nat → Int → Except Failure Int
  | 0, deltaxcn => .ok deltaxcn
  | k + 1, deltaxcn => do
    let b ← load mem (pos + (k + 1))
    readDeltaLoop mem pos k (s64 (deltaxcn * 256 + b.toNat))

/-- `for (deltaxcn = (s8)buf[b--]; b > b2; b--) deltaxcn = (deltaxcn << 8) + buf[b]`
over the `k + 1` bytes after `pos`. -/
def readDelta (mem : Buffer) (pos k : Nat) : Except Failure Int := do
  let b ← load mem (pos + (k + 1))
  readDeltaLoop mem pos k (SignedBytes.signedByte b)

/-- One pass of the decoding loop: the run at `buf`, whose header byte has been
read, and the cluster number to which the next change refers. -/
def decodeRun (attr : AttrRecord) (buf : Nat) (header : UInt8) (vcn lcn : Int) :
    Except Failure (RunlistElement × Int) := do
  let b := header.toNat % 16
  let b2 := header.toNat / 16
  if b = 0 then throw (.errno .eio)
  if attr.length < buf + b then throw (.errno .eio)
  let deltaxcn ← readDelta attr.mem buf (b - 1)
  if deltaxcn < 0 then throw (.errno .eio)
  if b2 = 0 then return ({ vcn := vcn, lcn := lcnHole, length := deltaxcn }, lcn)
  if attr.length < buf + (b + b2) then throw (.errno .eio)
  let change ← readDelta attr.mem (buf + b) (b2 - 1)
  let lcn := s64 (lcn + change)
  if lcn < -1 then throw (.errno .eio)
  return ({ vcn := vcn, lcn := lcn, length := deltaxcn }, lcn)

/-- `rl[rlpos] = e` in the growing array. -/
def putElement (rl : List RunlistElement) (rlpos : Nat) (e : RunlistElement) :
    List RunlistElement :=
  rl.take rlpos ++ e :: rl.drop (rlpos + 1)

/-- The decoding loop's variables. The array index `rlpos` is a `u16`. -/
structure DecodeState where
  buf : Nat
  vcn : Int
  lcn : Int
  rl : List RunlistElement
  rlpos : UInt16

/-- `while (buf < attr_end && *buf)`. -/
def decodeLoop (attr : AttrRecord) (s : DecodeState) : Except Failure DecodeState :=
  if s.buf < attr.length then
    match load attr.mem s.buf with
    | .error failure => .error failure
    | .ok header =>
      if header = 0 then .ok s
      else
        match decodeRun attr s.buf header s.vcn s.lcn with
        | .error failure => .error failure
        | .ok (e, lcn) =>
          decodeLoop attr
            { buf := s.buf + (header.toNat % 16 + header.toNat / 16 + 1)
              vcn := s64 (s.vcn + e.length)
              lcn := lcn
              rl := putElement s.rl s.rlpos.toNat e
              rlpos := s.rlpos + 1 }
  else .ok s
termination_by attr.length - s.buf

/-- Close the expanded array: check `highest_vcn`, mark the clusters of further
extents as not mapped, and set the terminator. -/
def closeRunlist (attr : AttrRecord) (s : DecodeState) : Except Failure (List RunlistElement) :=
  let deltaxcn := attr.highestVcn
  if deltaxcn ≠ 0 ∧ s64 (s.vcn - 1) ≠ deltaxcn then .error (.errno .eio)
  else if attr.lowestVcn = 0 then
    let maxCluster := s64 (attr.allocatedSize + vol.clusterSize - 1) / 2 ^ vol.clusterSizeBits - 1
    if deltaxcn ≠ 0 ∧ maxCluster < deltaxcn then .error (.errno .eio)
    else if deltaxcn ≠ 0 ∧ deltaxcn < maxCluster then
      let more : RunlistElement :=
        { vcn := s.vcn, lcn := lcnRlNotMapped, length := maxCluster - deltaxcn }
      let stop : RunlistElement :=
        { vcn := s64 (s.vcn + more.length), lcn := lcnEnoent, length := 0 }
      .ok (putElement (putElement s.rl s.rlpos.toNat more) (s.rlpos + 1).toNat stop)
    else .ok (putElement s.rl s.rlpos.toNat { vcn := s.vcn, lcn := lcnEnoent, length := 0 })
  else .ok (putElement s.rl s.rlpos.toNat { vcn := s.vcn, lcn := lcnRlNotMapped, length := 0 })

/-- The array before the first pair: an unmapped run up to `lowest_vcn`. -/
def initialDecodeState (attr : AttrRecord) : DecodeState :=
  if attr.lowestVcn = 0 then
    { buf := attr.mappingPairsOffset, vcn := 0, lcn := 0, rl := [], rlpos := 0 }
  else
    { buf := attr.mappingPairsOffset
      vcn := attr.lowestVcn
      lcn := 0
      rl := [{ vcn := 0, lcn := lcnRlNotMapped, length := attr.lowestVcn }]
      rlpos := 1 }

/-- `ntfs_mapping_pairs_decompress` without an existing runlist. -/
def mappingPairsDecompress (attr : AttrRecord) : Except Failure (List RunlistElement) :=
  if attr.nonResident = false ∨ attr.lowestVcn < 0 then .error (.errno .einval)
  else if attr.length < attr.mappingPairsOffset then .error (.errno .eio)
  else do
    let s ← decodeLoop attr (initialDecodeState attr)
    if attr.length ≤ s.buf then throw (.errno .eio)
    closeRunlist vol attr s

end

end NtfsDxe
