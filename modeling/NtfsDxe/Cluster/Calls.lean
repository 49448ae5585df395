import NtfsDxe.Cluster.AllocSound

/-! # The calls of the cluster allocator

The zones are set up when a volume is mounted. From then on clusters are
allocated and freed, and the positions and the marks of the zones depend on all
the calls before.
-/

namespace NtfsDxe

/-! ## Mounting -/

/-- The size of the mft zone: it is halved until the zone is inside the volume. (The
source does not leave the loop if the mft itself is not.) -/
def capZoneSize (mftLcn nrClusters : Int) (size : Nat) : Nat :=
  if mftLcn + size < nrClusters ∨ size = 0 then size
  else capZoneSize mftLcn nrClusters (size / 2)

def standardMftLcn (clusterSize : Nat) : Nat :=
  let mftLcn := (8192 + 2 * clusterSize - 1) / clusterSize
  if mftLcn * clusterSize < 16 * 1024 then (16 * 1024 + clusterSize - 1) / clusterSize else mftLcn

/-- The cluster allocator as `ntfs_volume_startup` initializes it. -/
def mountZones (lcnbmp : AttrData) (nrClusters freeClusters mftLcn : Int) (clusterSize : Nat) :
    AllocVolume :=
  let mftZoneEnd := mftLcn + capZoneSize mftLcn nrClusters (nrClusters / 8).toNat
  { lcnbmp := lcnbmp
    nrClusters := nrClusters
    freeClusters := freeClusters
    mftLcn := mftLcn
    mftZoneStart := if mftLcn ≤ standardMftLcn clusterSize then 0 else mftLcn
    mftZoneEnd := mftZoneEnd
    mftZonePos := mftLcn
    data1ZonePos := mftZoneEnd
    data2ZonePos := 0
    fullZones := ZoneFlags.empty }

/-! ## Freeing -/

section

variable (fuel : Nat) (hasMemory : Int → Bool) (vol : AllocVolume)

/-- Clear the bits of a run, after `update_full_status`. -/
def clearClusters (lcn count : Int) : Option (AllocVolume × Except Failure Unit) :=
  let vol := vol.updateFullStatus lcn
  match bitmapClearRun fuel (hasMemory lcn) vol.lcnbmp lcn count with
  | none => none
  | some (na, r) => some ({ vol with lcnbmp := na }, r)

def clusterFreeBasic (lcn count : Int) : Option (AllocVolume × Except Failure Unit) :=
  if 0 ≤ lcn then
    match clearClusters fuel hasMemory vol lcn count with
    | none => none
    | some (vol, .error e) => some (vol, .error e)
    | some (vol, .ok _) => some ({ vol with freeClusters := vol.freeClusters + count }, .ok ())
  else some (vol, .ok ())

/-- The number of clusters of a run to free, where `count` is the number left or -1. -/
def toFree (length count : Int) : Int := if 0 ≤ count ∧ count < length then count else length

def leftToFree (length count : Int) : Int :=
  if 0 ≤ count then count - toFree length count else count

/-- The loop of `ntfs_cluster_free` over the runs after the first one, with the number of
clusters freed. -/
def freeRest (fuel : Nat) (hasMemory : Int → Bool) :
    List RunlistElement → AllocVolume → Int → Int → Option (AllocVolume × Int × Except Failure Unit)
  | [], vol, nrFreed, _ => some (vol, nrFreed, .error .outOfBounds)
  | e :: rest, vol, nrFreed, count =>
    if e.length = 0 ∨ count = 0 then
      some (vol, nrFreed, if count ≠ -1 ∧ count ≠ 0 then .error (.errno .eio) else .ok ())
    else if e.lcn < 0 ∧ e.lcn ≠ lcnHole then some (vol, nrFreed, .error (.errno .eio))
    else if e.lcn = lcnHole then
      freeRest fuel hasMemory rest vol nrFreed (leftToFree e.length count)
    else
      match clearClusters fuel hasMemory vol e.lcn (toFree e.length count) with
      | none => none
      | some (vol, .error f) => some (vol, nrFreed, .error f)
      | some (vol, .ok _) =>
        freeRest fuel hasMemory rest vol (nrFreed + toFree e.length count)
          (leftToFree e.length count)

/-- The end of `ntfs_cluster_free`: count the clusters freed and return their number, as an
`int`. -/
def finishFree : Option (AllocVolume × Int × Except Failure Unit) →
    Option (AllocVolume × Except Failure Int)
  | none => none
  | some (vol, nrFreed, r) =>
    some ({ vol with freeClusters := vol.freeClusters + nrFreed }, r.map fun _ => s32 nrFreed)

/-- `ntfs_cluster_free`. What `ntfs_attr_find_vcn` finds is given: an error, or the runs from
the one that holds `startVcn` on. -/
def clusterFree (found : Except Errno (List RunlistElement)) (startVcn count : Int) :
    Option (AllocVolume × Except Failure Int) :=
  if startVcn < 0 ∨ (count < 0 ∧ count ≠ -1) then some (vol, .error (.errno .einval))
  else
    match found with
    | .error .enoent => some (vol, .ok 0)
    | .error e => some (vol, .error (.errno e))
    | .ok [] => some (vol, .error .outOfBounds)
    | .ok (e :: rest) =>
      if e.lcn < 0 ∧ e.lcn ≠ lcnHole then some (vol, .error (.errno .eio))
      else
        let delta := startVcn - e.vcn
        let left := leftToFree (e.length - delta) count
        if e.lcn = lcnHole then finishFree (freeRest fuel hasMemory rest vol 0 left)
        else
          match clearClusters fuel hasMemory vol (e.lcn + delta) (toFree (e.length - delta) count)
            with
          | none => none
          | some (vol, .error f) => some (vol, .error f)
          | some (vol, .ok _) =>
            finishFree
              (freeRest fuel hasMemory rest vol (toFree (e.length - delta) count) left)

end

/-! ## Histories -/

inductive ClusterCall where
  | alloc (startVcn count startLcn : Int) (zone : AllocationZone)
  | freeFromRl (rl : List RunlistElement)
  | freeBasic (lcn count : Int)
  | free (found : Except Errno (List RunlistElement)) (startVcn count : Int)

def ClusterCall.run (fuel : Nat) (vol : AllocVolume) : ClusterCall → Option AllocVolume
  | .alloc startVcn count startLcn zone =>
    (clusterAlloc fuel ampleMemory vol startVcn count startLcn zone).map Prod.fst
  | .freeFromRl rl => (clusterFreeFromRl fuel ampleMemory.clearRun vol rl).map Prod.fst
  | .freeBasic lcn count => (clusterFreeBasic fuel ampleMemory.clearRun vol lcn count).map Prod.fst
  | .free found startVcn count =>
    (clusterFree fuel ampleMemory.clearRun vol found startVcn count).map Prod.fst

/-- The call ends, and leaves the volume `v`. -/
def ClusterCall.Ends (c : ClusterCall) (vol v : AllocVolume) : Prop :=
  ∃ fuel, ∀ n ≥ fuel, c.run n vol = some v

lemma ClusterCall.Ends.unique {c : ClusterCall} (h : c.Ends vol v)
    (h' : c.Ends vol v') : v = v' := by
  obtain ⟨fuel, hrun⟩ := h
  obtain ⟨fuel', hrun'⟩ := h'
  have hboth := (hrun (max fuel fuel') (le_max_left _ _)).symm.trans
    (hrun' (max fuel fuel') (le_max_right _ _))
  exact Option.some.inj hboth

/-- The volumes reached by calls of which each is `Allowed` where it is made. -/
def ReachedBy (Allowed : AllocVolume → ClusterCall → Prop) : AllocVolume → AllocVolume → Prop :=
  Relation.ReflTransGen fun vol v => ∃ c, Allowed vol c ∧ ClusterCall.Ends c vol v

end NtfsDxe
