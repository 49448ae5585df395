import NtfsDxe.Core.AttrData

/-! # Allocation zones

A volume is divided into the zone reserved for the mft and the two data zones
after and before it. For each zone the volume keeps the position of the next
allocation, and a flag for the zones found full.
-/

namespace NtfsDxe

/-- The zones `ZONE_MFT`, `ZONE_DATA1` and `ZONE_DATA2`. -/
inductive Zone where
  | mft
  | data1
  | data2
  deriving DecidableEq

/-- A set of zones, kept as the flags of a byte. -/
structure ZoneFlags where
  mft : Bool
  data1 : Bool
  data2 : Bool

namespace ZoneFlags

def empty : ZoneFlags := ⟨false, false, false⟩

def has (flags : ZoneFlags) : Zone → Bool
  | .mft => flags.mft
  | .data1 => flags.data1
  | .data2 => flags.data2

def insert (flags : ZoneFlags) : Zone → ZoneFlags
  | .mft => { flags with mft := true }
  | .data1 => { flags with data1 := true }
  | .data2 => { flags with data2 := true }

def erase (flags : ZoneFlags) : Zone → ZoneFlags
  | .mft => { flags with mft := false }
  | .data1 => { flags with data1 := false }
  | .data2 => { flags with data2 := false }

def all (flags : ZoneFlags) : Bool := flags.mft && flags.data1 && flags.data2

end ZoneFlags

/-- The fields of `ntfs_volume` that the cluster allocator uses. -/
structure AllocVolume where
  lcnbmp : AttrData
  nrClusters : Int
  freeClusters : Int
  mftLcn : Int
  mftZoneStart : Int
  mftZoneEnd : Int
  mftZonePos : Int
  data1ZonePos : Int
  data2ZonePos : Int
  fullZones : ZoneFlags

def clusterSetZonePos (start stop pos tc : Int) : Int :=
  if stop ≤ tc then start else if start ≤ tc then tc else pos

namespace AllocVolume

section

variable (vol : AllocVolume)

/-- `ntfs_cluster_update_zone_pos`. -/
def updateZonePos (zone : Zone) (tc : Int) : AllocVolume :=
  match zone with
  | .mft =>
    { vol with mftZonePos := clusterSetZonePos vol.mftLcn vol.mftZoneEnd vol.mftZonePos tc }
  | .data1 =>
    { vol with
      data1ZonePos := clusterSetZonePos vol.mftZoneEnd vol.nrClusters vol.data1ZonePos tc }
  | .data2 =>
    { vol with data2ZonePos := clusterSetZonePos 0 vol.mftZoneStart vol.data2ZonePos tc }

def zoneOf (lcn : Int) : Zone :=
  if vol.mftZoneEnd ≤ lcn then .data1 else if lcn < vol.mftZoneStart then .data2 else .mft

/-- `update_full_status`: a zone is no longer full when a cluster of it is freed. -/
def updateFullStatus (lcn : Int) : AllocVolume :=
  let zone := vol.zoneOf lcn
  if vol.fullZones.has zone then
    { vol.updateZonePos zone lcn with fullZones := vol.fullZones.erase zone }
  else vol

def zonePos : Zone → Int
  | .mft => vol.mftZonePos
  | .data1 => vol.data1ZonePos
  | .data2 => vol.data2ZonePos

def zoneStart : Zone → Int
  | .mft => vol.mftZoneStart
  | .data1 => vol.mftZoneEnd
  | .data2 => 0

def zoneEnd : Zone → Int
  | .mft => vol.mftZoneEnd
  | .data1 => vol.nrClusters
  | .data2 => vol.mftZoneStart

/-- Whether a search from `pos` starts at the beginning of some zone. -/
def atZoneStart (pos : Int) : Bool :=
  pos == 0 || pos == vol.mftZoneStart || pos == vol.mftZoneEnd

end

end AllocVolume

end NtfsDxe
