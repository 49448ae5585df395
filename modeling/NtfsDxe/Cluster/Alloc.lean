import NtfsDxe.Bitmap.SetRun
import NtfsDxe.Cluster.Zones
import NtfsDxe.Runlist.Basic

/-! # The cluster allocator

`ntfs_cluster_alloc` searches the cluster bitmap in windows of 4096 bytes, zone
by zone, first from the current position of a zone to its end, then from its
beginning. In each window it takes the longest range of clear bits, unless a
range goes on from the window before or a hint was given. If it runs out of
space, what has been allocated is freed again.
-/

namespace NtfsDxe

open Foundation Bits

/-! ## The longest empty range of a window -/

/-- The variables of `max_empty_bit_range`. The first two are `int`s. -/
structure EmptyRange where
  run : Int
  maxRange : Int
  startPos : Int

/-- A range that ends before bit `pos` is kept if it is the longest so far. -/
def EmptyRange.close (r : EmptyRange) (pos : Int) : EmptyRange :=
  if r.maxRange < r.run then { run := 0, maxRange := r.run, startPos := pos - r.run }
  else { r with run := 0 }

/-- The loop over the bits `8 - n` to `7` of byte `i`. -/
def EmptyRange.bits (i : Nat) (b : UInt8) : Nat → EmptyRange → EmptyRange
  | 0, r => r
  | n + 1, r =>
    let j := 7 - n
    if getBit b j then EmptyRange.bits i b n (r.close (i * 8 + j))
    else EmptyRange.bits i b n { r with run := s32 (r.run + 1) }

/-- The loop over the bytes from number `i` on. The inner loops of the source over
bytes `0` and bytes `255` do the same for each such byte. -/
def EmptyRange.bytes : Nat → Buffer → EmptyRange → Int
  | i, [], r => if r.maxRange < r.run then i * 8 - r.run else r.startPos
  | i, b :: buf, r =>
    if b = 0 then EmptyRange.bytes (i + 1) buf { r with run := s32 (r.run + 8) }
    else if b = 255 then EmptyRange.bytes (i + 1) buf (r.close (i * 8))
    else EmptyRange.bytes (i + 1) buf (EmptyRange.bits i b 8 r)

/-- `max_empty_bit_range`: where the longest range of clear bits starts, or `-1`. -/
def maxEmptyBitRange (buf : Buffer) : Int :=
  EmptyRange.bytes 0 buf { run := 0, maxRange := 0, startPos := -1 }

/-! ## Searching a window -/

/-- `NTFS_LCNALLOC_BSIZE` and `NTFS_LCNALLOC_SKIP`. -/
def lcnallocBsize : Int := 4096

/-- Where the search goes on. -/
inductive AllocPoint where
  | window
  | zonePassDone
  | doneZonesCheck

/-- The variables of `ntfs_cluster_alloc`. The runs are listed from the last one
back, so that `rlpos` is their number. -/
structure AllocState where
  vol : AllocVolume
  point : AllocPoint
  zoneStart : Int
  zoneEnd : Int
  bmpPos : Int
  prevLcn : Int
  prevRunLen : Int
  clusters : Int
  rl : List RunlistElement
  rlsize : Nat
  pass : Nat
  searchZone : Zone
  doneZones : ZoneFlags
  hasGuess : Bool
  usedZonePos : Bool

structure AllocWindow where
  buf : Buffer
  lcn : Nat
  writeback : Bool

/-- How the search of a window ends. -/
inductive WindowExit where
  | leave
  | allocated
  | noMemory
  deriving DecidableEq

namespace AllocState

def growRunlist (realloc : Nat → Bool) (s : AllocState) : Option AllocState :=
  if s.rlsize ≤ (s.rl.length + 2) * sizeofRunlistElement then
    if realloc (s.rlsize + 4096) then some { s with rlsize := s.rlsize + 4096 } else none
  else some s

/-- Coalesce with the previous run if the clusters are adjacent, otherwise append
a new run. -/
def addCluster (startVcn lcn : Int) (s : AllocState) : AllocState :=
  match s.rl with
  | [] =>
    { s with
      rl := [{ vcn := startVcn, lcn := lcn, length := 1 }], prevLcn := lcn, prevRunLen := 1 }
  | last :: rest =>
    if s.prevLcn = lcn - s.prevRunLen then
      { s with
        rl := { last with length := s.prevRunLen + 1 } :: rest, prevRunLen := s.prevRunLen + 1 }
    else
      { s with
        rl := { vcn := s64 (last.vcn + s.prevRunLen), lcn := lcn, length := 1 } :: last :: rest
        prevLcn := lcn
        prevRunLen := 1 }

def takeCluster (startVcn lcn : Int) (s : AllocState) : AllocState :=
  let free := s.vol.freeClusters
  let s := s.addCluster startVcn lcn
  { s with
    vol := { s.vol with freeClusters := if free ≤ 0 then free else free - 1 }
    clusters := s.clusters - 1 }

end AllocState

/-- Update the position in the zone once the last cluster is allocated. -/
def AllocState.updateZonePos (s : AllocState) (lcn : Int) : AllocState :=
  if s.usedZonePos then
    { s with vol := s.vol.updateZonePos s.searchZone (lcn + 1 + lcnallocBsize) }
  else s

def AllocWindow.setLcn (w : AllocWindow) : AllocWindow :=
  { w with
    buf := w.buf.set (w.lcn / 8) (setBit (w.buf.getD (w.lcn / 8) 0) (w.lcn % 8) true)
    writeback := true }

def windowLoop (realloc : Nat → Bool) (startVcn : Int) (s : AllocState) (w : AllocWindow) :
    AllocState × AllocWindow × WindowExit :=
  if w.lcn < 8 * w.buf.length then
    if s.hasGuess then
      if getBit (w.buf.getD (w.lcn / 8) 0) (w.lcn % 8) then ({ s with hasGuess := false }, w,
        .leave)
      else
        match s.growRunlist realloc with
        | none => (s, w, .noMemory)
        | some s' =>
          if (s'.takeCluster startVcn (s.bmpPos + w.lcn)).clusters = 0 then
            ((s'.takeCluster startVcn (s.bmpPos + w.lcn)).updateZonePos (s.bmpPos + w.lcn),
              w.setLcn, .allocated)
          else
            -- `has_guess` is still set
            windowLoop realloc startVcn
              { s'.takeCluster startVcn (s.bmpPos + w.lcn) with hasGuess := true }
              { w.setLcn with lcn := w.lcn + 1 }
    else if maxEmptyBitRange w.buf < 0 then (s, w, .leave)
    else
      windowLoop realloc startVcn { s with hasGuess := true }
        { w with lcn := (maxEmptyBitRange w.buf).toNat }
  else (s, w, .leave)
termination_by (8 * w.buf.length - w.lcn) + if s.hasGuess then 0 else 8 * w.buf.length + 1
decreasing_by
  · simp_all [AllocWindow.setLcn]
    omega
  · simp_all
    omega

/-! ## Searching the zones -/

def bitmapWriteback (vol : AllocVolume) (pos : Int)
    (w : AllocWindow) : Except Failure AllocVolume :=
  if w.writeback then
    match vol.lcnbmp.pwrite pos w.buf with
    | .error e => .error e
    | .ok na => .ok { vol with lcnbmp := na }
  else .ok vol

/-- The zone that is searched after `search`, once the zones `done` are done. -/
def nextZone (search : Zone) (done : ZoneFlags) : Zone :=
  match search with
  | .mft => .data1
  | .data1 => .data2
  | .data2 => if done.data1 then .mft else .data1

namespace AllocState

/-- Go on after a window of `bufSize` bits: from the zone's own position if the
window was one of the hint, otherwise with the next window. -/
def nextWindow (s : AllocState) (bufSize : Int) : AllocState :=
  let s :=
    if s.usedZonePos then { s with bmpPos := s.bmpPos + bufSize }
    else
      let zoneStart := s.vol.zonePos s.searchZone
      { s with
        usedZonePos := true
        zoneStart := zoneStart
        pass := if s.vol.atZoneStart zoneStart then 2 else s.pass
        bmpPos := zoneStart }
  { s with point := if s.bmpPos < s.zoneEnd then .window else .zonePassDone }

/-- `zone_pass_done`: the second pass searches the zone from its beginning. -/
def passDone (s : AllocState) : AllocState :=
  if s.pass = 1 then
    let zoneStart := s.vol.zoneStart s.searchZone
    { s with
      pass := 2
      zoneStart := zoneStart
      zoneEnd := max s.zoneStart zoneStart
      bmpPos := zoneStart
      point := .window }
  else { s with point := .doneZonesCheck }

def switchZone (s : AllocState) : AllocState :=
  let vol :=
    match s.rl with
    | [] => s.vol
    | last :: _ =>
      if s.usedZonePos then
        s.vol.updateZonePos s.searchZone (last.lcn + last.length + lcnallocBsize)
      else s.vol
  let zone := nextZone s.searchZone s.doneZones
  let zoneStart := vol.zonePos zone
  { s with
    vol := vol
    searchZone := zone
    pass := if zoneStart = vol.zoneStart zone then 2 else 1
    zoneStart := zoneStart
    zoneEnd := vol.zoneEnd zone
    bmpPos := zoneStart
    point := if zoneStart = vol.zoneEnd zone then .doneZonesCheck else .window }

end AllocState

/-- How the search ends: with all the clusters, or with an error. -/
inductive AllocExit where
  | done (vol : AllocVolume) (rl : List RunlistElement)
  | failed (vol : AllocVolume) (rl : List RunlistElement) (error : Failure)

def finishWindow (lastReadPos : Int) (s : AllocState) (w : AllocWindow) (exit : WindowExit) :
    AllocState ⊕ AllocExit :=
  match bitmapWriteback s.vol lastReadPos w with
  | .error e => .inr (.failed s.vol s.rl e)
  | .ok vol =>
    match exit with
    | .allocated => .inr (.done vol s.rl)
    | .noMemory => .inr (.failed vol s.rl (.errno .enomem))
    | .leave => .inl ({ s with vol := vol }.nextWindow (8 * w.buf.length))

def windowStep (realloc : Nat → Bool) (startVcn : Int) (s : AllocState) : AllocState ⊕ AllocExit :=
  if s.vol.fullZones.has s.searchZone then .inl { s with point := .zonePassDone }
  else
    match s.vol.lcnbmp.pread (s.bmpPos / 8) lcnallocBsize with
    | .error e => .inr (.failed s.vol s.rl e)
    | .ok [] => .inl { s with point := .zonePassDone }
    | .ok (b :: buf) =>
      let r := windowLoop realloc startVcn { s with bmpPos := s.bmpPos / 8 * 8 }
        { buf := b :: buf, lcn := (s.bmpPos % 8).toNat, writeback := false }
      finishWindow (s.bmpPos / 8) r.1 r.2.1 r.2.2

/-- `done_zones_check`. -/
def doneZonesStep (s : AllocState) : AllocState ⊕ AllocExit :=
  let vol := { s.vol with fullZones := s.vol.fullZones.insert s.searchZone }
  let s := { s with vol := vol, doneZones := s.doneZones.insert s.searchZone }
  if s.doneZones.all then .inr (.failed s.vol s.rl (.errno .enospc)) else .inl s.switchZone

/-- The body of the main loop, cut at its labels. -/
def allocStep (realloc : Nat → Bool) (startVcn : Int) (s : AllocState) : AllocState ⊕ AllocExit :=
  match s.point with
  | .window => windowStep realloc startVcn s
  | .zonePassDone => .inl s.passDone
  | .doneZonesCheck => doneZonesStep s

/-! ## Freeing and allocating -/

/-- The loop of `ntfs_cluster_free_from_rl`, with the number of clusters freed. -/
def freeRuns (fuel : Nat) (hasMemory : Int → Bool) :
    List RunlistElement → AllocVolume → Int → Option (AllocVolume × Int × Except Failure Unit)
  | [], vol, nrFreed => some (vol, nrFreed, .error .outOfBounds)
  | e :: rest, vol, nrFreed =>
    if e.length = 0 then some (vol, nrFreed, .ok ())
    else if 0 ≤ e.lcn then
      let vol := vol.updateFullStatus e.lcn
      match bitmapClearRun fuel (hasMemory e.lcn) vol.lcnbmp e.lcn e.length with
      | none => none
      | some (na, .error f) => some ({ vol with lcnbmp := na }, nrFreed, .error f)
      | some (na, .ok _) =>
        freeRuns fuel hasMemory rest { vol with lcnbmp := na } (nrFreed + e.length)
    else freeRuns fuel hasMemory rest vol nrFreed

def clusterFreeFromRl (fuel : Nat) (hasMemory : Int → Bool) (vol : AllocVolume)
    (rl : List RunlistElement) : Option (AllocVolume × Except Failure Unit) :=
  match freeRuns fuel hasMemory rl vol 0 with
  | none => none
  | some (vol, nrFreed, r) => some ({ vol with freeClusters := vol.freeClusters + nrFreed }, r)

def terminate : List RunlistElement → List RunlistElement
  | [] => []
  | last :: rest =>
    (last :: rest).reverse ++
      [{ vcn := s64 (last.vcn + last.length), lcn := lcnRlNotMapped, length := 0 }]

/-- `NTFS_CLUSTER_ALLOCATION_ZONES`. -/
inductive AllocationZone where
  | mft
  | data

/-- Where memory is available: for an empty runlist, for the window, for a runlist
of a given size, and for clearing the run that starts at a given cluster. -/
structure AllocMemory where
  emptyRunlist : Bool
  window : Bool
  realloc : Nat → Bool
  clearRun : Int → Bool

def allocInitial (vol : AllocVolume) (count startLcn : Int) (zone : AllocationZone) : AllocState :=
  let hasGuess := 0 ≤ startLcn
  let zoneStart :=
    if startLcn < 0 then
      match zone with
      | .data => vol.data1ZonePos
      | .mft => vol.mftZonePos
    else startLcn
  let searchZone :=
    if zoneStart < vol.mftZoneStart then Zone.data2
    else if zoneStart < vol.mftZoneEnd then Zone.mft
    else Zone.data1
  { vol := vol
    point := .window
    zoneStart := zoneStart
    zoneEnd := vol.zoneEnd searchZone
    bmpPos := zoneStart
    prevLcn := 0
    prevRunLen := 0
    clusters := count
    rl := []
    rlsize := 0
    pass := if vol.atZoneStart zoneStart then 2 else 1
    searchZone := searchZone
    doneZones := ZoneFlags.empty
    hasGuess := hasGuess
    usedZonePos := !hasGuess }

/-- `done_ret` and `err_ret`: terminate the runlist, and free its clusters again
after an error. -/
def finishAlloc (fuel : Nat) (memory : AllocMemory) :
    AllocExit → Option (AllocVolume × Except Failure (List RunlistElement))
  | .done vol rl => some (vol, .ok (terminate rl))
  | .failed vol [] e => some (vol, .error e)
  | .failed vol rl e =>
    match clusterFreeFromRl fuel memory.clearRun vol (terminate rl) with
    | none => none
    | some (vol, .error .outOfBounds) => some (vol, .error .outOfBounds)
    | some (vol, _) => some (vol, .error e)

/-- `ntfs_cluster_alloc`: the volume and the runlist. -/
def clusterAlloc (fuel : Nat) (memory : AllocMemory) (vol : AllocVolume)
    (startVcn count startLcn : Int) (zone : AllocationZone) :
    Option (AllocVolume × Except Failure (List RunlistElement)) :=
  if count < 0 ∨ startLcn < -1 then some (vol, .error (.errno .einval))
  else if count = 0 then
    some (vol, if memory.emptyRunlist
      then .ok [{ vcn := startVcn, lcn := lcnRlNotMapped, length := 0 }]
      else .error (.errno .enomem))
  else if memory.window then
    match Loop.run (allocStep memory.realloc startVcn) fuel
        (allocInitial vol count startLcn zone) with
    | none => none
    | some exit => finishAlloc fuel memory exit
  else some (vol, .error (.errno .enomem))

end NtfsDxe
