import NtfsDxe.Core.Machine
import NtfsDxe.Foundation.LittleEndian
import Mathlib.Data.Nat.Prime.Basic

/-! # The boot sector

`ntfs_boot_sector_is_ntfs` checks the fields of a boot sector and `ntfs_boot_sector_parse`
derives the geometry of the volume from them.
-/

namespace NtfsDxe

open Foundation LittleEndian SignedBytes

/-! ## The fields -/

section

variable (bs : List UInt8)

def oemId : Nat := read bs 0x03 8
def bytesPerSector : Nat := read bs 0x0b 2
def sectorsPerCluster : Nat := read bs 0x0d 1
def reservedSectors : Nat := read bs 0x0e 2
def fats : Nat := read bs 0x10 1
def rootEntries : Nat := read bs 0x11 2
def bpbSectors : Nat := read bs 0x13 2
def sectorsPerFat : Nat := read bs 0x16 2
def largeSectors : Nat := read bs 0x20 4
def numberOfSectors : Int := s64 (read bs 0x28 8)
def bootMftLcn : Int := s64 (read bs 0x30 8)
def bootMftmirrLcn : Int := s64 (read bs 0x38 8)
def clustersPerMftRecord : UInt8 := bs.getD 0x40 0
def clustersPerIndexRecord : UInt8 := bs.getD 0x44 0

/-- The values of `clusters_per_mft_record` and `clusters_per_index_record` that are
accepted: a negated exponent, or a number of clusters. -/
def clustersPerRecordOk (b : UInt8) : Bool :=
  (0xe1 ≤ b.toNat && b.toNat ≤ 0xf7) || b.toNat ∈ [1, 2, 4, 8, 0x10, 0x20, 0x40]

def ntfsBootSectorIsNtfs : Bool :=
  oemId bs == 0x202020205346544e &&
  (256 ≤ bytesPerSector bs && bytesPerSector bs ≤ 4096) &&
  sectorsPerCluster bs ∈ [1, 2, 4, 8, 16, 32, 64, 128] &&
  bytesPerSector bs * sectorsPerCluster bs ≤ 65536 &&
  (reservedSectors bs == 0 && rootEntries bs == 0 && bpbSectors bs == 0 &&
    sectorsPerFat bs == 0 && largeSectors bs == 0 && fats bs == 0) &&
  clustersPerRecordOk (clustersPerMftRecord bs) &&
  clustersPerRecordOk (clustersPerIndexRecord bs)

end

/-! ## The geometry -/

/-- The fields of the volume that the boot sector determines. -/
structure VolumeGeometry where
  sectorSize : Nat
  sectorSizeBits : Nat
  clusterSize : Nat
  clusterSizeBits : Nat
  mftRecordSize : Nat
  mftRecordSizeBits : Nat
  indxRecordSize : Nat
  indxRecordSizeBits : Nat
  nrClusters : Int
  mftLcn : Int
  mftmirrLcn : Int
  mftmirrSize : Nat
  deriving DecidableEq

/-- One step of `ffs`: if the lowest `n` bits are clear they are shifted out. -/
def ffsStep (n : Nat) (p : Int × Nat) : Int × Nat :=
  if p.1 % 2 ^ n = 0 then (p.1 / 2 ^ n, p.2 + n) else p

/-- `ffs`, on the value of an `int`. -/
def ffs (x : Int) : Nat :=
  if x = 0 then 0 else (ffsStep 1 (ffsStep 2 (ffsStep 4 (ffsStep 8 (ffsStep 16 (x, 1)))))).2

/-- `ffs(size) - 1` for an unsigned 32-bit number. -/
def sizeBits (size : Nat) : Nat := ffs (s32 size) - 1

/-- `x & (x - 1)` is not zero. -/
def notPowerOf2 (x : Nat) : Bool := x &&& (x - 1) != 0

/-- The size of a record in 32 bits, for a number of clusters or a negated exponent. -/
def recordSize (c : Int) (clusterSizeBits : Nat) : Nat :=
  if c < 0 then 2 ^ (-c).toNat % 2 ^ 32 else c.toNat * 2 ^ clusterSizeBits % 2 ^ 32

/-- `mftmirr_size`. The product is computed in 32 bits. -/
def mirrorSize (clusterSize mftRecordSize : Nat) : Nat :=
  if clusterSize ≤ 4 * mftRecordSize % 2 ^ 32 then 4 else clusterSize / mftRecordSize

/-- The volume that `ntfs_boot_sector_parse` sets up if all of its checks succeed. -/
def bootGeometry (bs : List UInt8) : VolumeGeometry :=
  let clusterSize := sectorsPerCluster bs * bytesPerSector bs
  let mftRecordSize := recordSize (signedByte (clustersPerMftRecord bs)) (sizeBits clusterSize)
  let indxRecordSize := recordSize (signedByte (clustersPerIndexRecord bs)) (sizeBits clusterSize)
  { sectorSize := bytesPerSector bs
    sectorSizeBits := sizeBits (bytesPerSector bs)
    clusterSize := clusterSize
    clusterSizeBits := sizeBits clusterSize
    mftRecordSize := mftRecordSize
    mftRecordSizeBits := sizeBits mftRecordSize
    indxRecordSize := indxRecordSize
    indxRecordSizeBits := sizeBits indxRecordSize
    nrClusters := numberOfSectors bs / 2 ^ sizeBits (sectorsPerCluster bs)
    mftLcn := bootMftLcn bs
    mftmirrLcn := bootMftmirrLcn bs
    mftmirrSize := mirrorSize clusterSize mftRecordSize }

/-- The checks of `ntfs_boot_sector_parse`, in their order. `seek` tells whether the device
can be positioned. -/
def checkGeometry (seek : Int → Bool) (bs : List UInt8) (g : VolumeGeometry) :
    Option VolumeGeometry :=
  if notPowerOf2 (sectorsPerCluster bs) then none
  else if numberOfSectors bs = 0 then none
  else if !seek (s64 ((numberOfSectors bs - 1) * 2 ^ g.sectorSizeBits)) then none
  else if (g.mftLcn < 0 ∨ g.nrClusters < g.mftLcn) ∨ (g.mftmirrLcn < 0 ∨
    g.nrClusters < g.mftmirrLcn)
    then none
  else if notPowerOf2 g.clusterSize then none
  else if notPowerOf2 g.mftRecordSize then none
  else some g

def ntfsBootSectorParse (seek : Int → Bool) (bs : List UInt8) : Option VolumeGeometry :=
  checkGeometry seek bs (bootGeometry bs)

/-! ## What the geometry has to satisfy -/

/-- A size is a power of two with the given exponent. -/
def IsShift (size bits : Nat) : Prop := size = 2 ^ bits

/-- What the rest of the driver takes for granted about the geometry. -/
structure VolumeGeometry.Sound (g : VolumeGeometry) : Prop where
  sector : IsShift g.sectorSize g.sectorSizeBits
  cluster : IsShift g.clusterSize g.clusterSizeBits
  mftRecord : IsShift g.mftRecordSize g.mftRecordSizeBits
  indxRecord : IsShift g.indxRecordSize g.indxRecordSizeBits
  sector_le : g.sectorSize ≤ g.clusterSize
  cluster_le : g.clusterSize ≤ 65536
  nrClusters : 1 ≤ g.nrClusters
  mftLcn : 0 ≤ g.mftLcn ∧ g.mftLcn < g.nrClusters
  mftmirrLcn : 0 ≤ g.mftmirrLcn ∧ g.mftmirrLcn < g.nrClusters
  mftmirrSize : g.mftmirrSize = max 4 (g.clusterSize / g.mftRecordSize)

lemma ffs_two_pow : ∀ k < 32, ffs (s32 (2 ^ k)) = k + 1 := by decide +kernel

variable {k n : Nat} {b : UInt8}

lemma sizeBits_two_pow (hk : k < 32) : sizeBits (2 ^ k) = k := by
  rw [sizeBits, Nat.cast_pow, Nat.cast_ofNat, ffs_two_pow k hk, Nat.add_sub_cancel]

lemma isShift_two_pow (hk : k < 32) : IsShift (2 ^ k) (sizeBits (2 ^ k)) := by
  rw [IsShift, sizeBits_two_pow hk]

lemma notPowerOf2_eq_false (hx : x ≠ 0) (h : notPowerOf2 x = false) : ∃ k, x = 2 ^ k := by
  rw [notPowerOf2, bne_eq_false_iff_eq] at h
  exact (Nat.and_sub_one_eq_zero_iff_isPowerOfTwo hx).mp h

lemma lt_of_two_pow_le (h : 2 ^ k ≤ 2 ^ m) : k ≤ m :=
  (Nat.pow_le_pow_iff_right (by decide)).mp h

lemma two_pow_lt (h : k < m) : 2 ^ k < 2 ^ m := Nat.pow_lt_pow_right (by decide) h

/-! ## Records -/

lemma exists_two_pow_of_mem (hn : n ∈ [1, 2, 4, 8, 0x10, 0x20, 0x40]) : ∃ i ≤ 6, n = 2 ^ i := by
  revert hn n
  decide

lemma exists_two_pow_of_mem_sectors (hn : n ∈ [1, 2, 4, 8, 16, 32, 64, 128]) :
    ∃ i ≤ 7, n = 2 ^ i := by
  revert hn n
  decide

lemma signedByte_of_exponent (hlo : 0xe1 ≤ b.toNat) : signedByte b = (b.toNat : Int) - 256 := by
  rw [signedByte, if_neg (by omega)]

lemma signedByte_of_count (hhi : b.toNat ≤ 0x40) : signedByte b = b.toNat := by
  rw [signedByte, if_pos (by omega)]

lemma recordSize_of_exponent (hlo : 0xe1 ≤ b.toNat) (hhi : b.toNat ≤ 0xf7) :
    recordSize (signedByte b) k = 2 ^ (256 - b.toNat) := by
  rw [recordSize, signedByte_of_exponent hlo, if_pos (by omega)]
  have hexp : (-((b.toNat : Int) - 256)).toNat = 256 - b.toNat := by omega
  rw [hexp]
  exact Nat.mod_eq_of_lt (two_pow_lt (by omega))

lemma recordSize_of_count (hb : b.toNat = 2 ^ i) (hi : i ≤ 6) (hk : k ≤ 16) :
    recordSize (signedByte b) k = 2 ^ (i + k) := by
  have hle : b.toNat ≤ 0x40 := by
    rw [hb]
    exact Nat.pow_le_pow_right (by decide) hi
  rw [recordSize, signedByte_of_count hle, Int.toNat_natCast, hb, ← pow_add]
  exact Nat.mod_eq_of_lt (two_pow_lt (by omega))

/-- A record has a power of two as its size, which is below `2 ^ 30` except for the two
largest exponents. -/
lemma recordSize_of_ok (hb : clustersPerRecordOk b = true) (hk : k ≤ 16) :
    ∃ m < 32, recordSize (signedByte b) k = 2 ^ m ∧ (m < 30 ↔ b ≠ 0xe1 ∧ b ≠ 0xe2) := by
  have hvalue : ∀ n : UInt8, b ≠ n ↔ b.toNat ≠ n.toNat := fun n => not_congr UInt8.toNat_inj.symm
  rw [hvalue, hvalue]
  change ∃ m < 32, _ ∧ (m < 30 ↔ b.toNat ≠ 225 ∧ b.toNat ≠ 226)
  rw [clustersPerRecordOk, Bool.or_eq_true, Bool.and_eq_true, decide_eq_true_eq,
    decide_eq_true_eq, decide_eq_true_eq] at hb
  rcases hb with ⟨hlo, hhi⟩ | hcount
  · refine ⟨256 - b.toNat, by omega, recordSize_of_exponent hlo hhi, ?_⟩
    omega
  · obtain ⟨i, hi, hpow⟩ := exists_two_pow_of_mem hcount
    have hle : 2 ^ i ≤ 2 ^ 6 := Nat.pow_le_pow_right (by decide) hi
    refine ⟨i + k, by omega, recordSize_of_count hpow hi hk, ?_⟩
    omega

/-- The size of the mirror is right as long as four records are less than `2 ^ 32` bytes. -/
lemma mirrorSize_eq_iff (hpos : 0 < c) (hle : c ≤ 65536) (hm : m < 32) :
    mirrorSize c (2 ^ m) = max 4 (c / 2 ^ m) ↔ m < 30 := by
  unfold mirrorSize
  by_cases hsmall : m < 30
  · have hproduct : 4 * 2 ^ m % 2 ^ 32 = 4 * 2 ^ m := by
      have hlt := two_pow_lt hsmall
      exact Nat.mod_eq_of_lt (by omega)
    rw [hproduct]
    have hrecord : 0 < 2 ^ m := Nat.two_pow_pos m
    split
    case isTrue hfits =>
      have hdiv : c / 2 ^ m ≤ 4 := Nat.div_le_of_le_mul (by rwa [mul_comm])
      omega
    case isFalse hfits =>
      have hdiv : 4 ≤ c / 2 ^ m := (Nat.le_div_iff_mul_le hrecord).mpr (by omega)
      omega
  · -- the product has become zero, and so has the quotient
    have hproduct : 4 * 2 ^ m % 2 ^ 32 = 0 := by
      have hcases : m = 30 ∨ m = 31 := by omega
      rcases hcases with rfl | rfl
      · rfl
      · rfl
    have hdiv : c / 2 ^ m = 0 := by
      refine Nat.div_eq_of_lt (lt_of_le_of_lt hle ?_)
      exact @two_pow_lt 16 m (by omega)
    rw [if_neg (by omega), hdiv]
    simp [hsmall]

/-! ## Accepted boot sectors -/

/-- What both functions have checked about a boot sector that they accept. -/
structure BootAccepted (bs : List UInt8) (g : VolumeGeometry) : Prop where
  bytes : 256 ≤ bytesPerSector bs
  sectors : sectorsPerCluster bs ∈ [1, 2, 4, 8, 16, 32, 64, 128]
  cluster : bytesPerSector bs * sectorsPerCluster bs ≤ 65536
  mftRecord : clustersPerRecordOk (clustersPerMftRecord bs) = true
  indexRecord : clustersPerRecordOk (clustersPerIndexRecord bs) = true
  power : notPowerOf2 (sectorsPerCluster bs * bytesPerSector bs) = false
  geometry : g = bootGeometry bs
  mftLcn : 0 ≤ g.mftLcn ∧ g.mftLcn ≤ g.nrClusters
  mftmirrLcn : 0 ≤ g.mftmirrLcn ∧ g.mftmirrLcn ≤ g.nrClusters

lemma bootAccepted (hntfs : ntfsBootSectorIsNtfs bs = true)
    (hparse : ntfsBootSectorParse seek bs = some g) : BootAccepted bs g := by
  simp only [ntfsBootSectorIsNtfs, Bool.and_eq_true, decide_eq_true_eq] at hntfs
  obtain ⟨⟨⟨⟨⟨⟨-, hbytes, -⟩, hsectors⟩, hcluster⟩, -⟩, hmft⟩, hindex⟩ := hntfs
  rw [ntfsBootSectorParse, checkGeometry] at hparse
  split_ifs at hparse with hspc hzero hseek hlcn hpower hrecord
  obtain rfl := Option.some.inj hparse
  rw [Bool.not_eq_true] at hpower
  exact ⟨hbytes, hsectors, hcluster, hmft, hindex, hpower, rfl, by omega, by omega⟩

section

variable {bs : List UInt8} {g : VolumeGeometry}

lemma BootAccepted.sizes (h : BootAccepted bs g) :
    ∃ i j, i ≤ 7 ∧ i + j ≤ 16 ∧ sectorsPerCluster bs = 2 ^ i ∧ bytesPerSector bs = 2 ^ j := by
  obtain ⟨i, hi, hspc⟩ := exists_two_pow_of_mem_sectors h.sectors
  have hbytes := h.bytes
  have hne : sectorsPerCluster bs * bytesPerSector bs ≠ 0 := by
    rw [hspc]
    exact Nat.mul_ne_zero (Nat.two_pow_pos i).ne' (by omega)
  obtain ⟨k, hk⟩ := notPowerOf2_eq_false hne h.power
  have hdvd : bytesPerSector bs ∣ 2 ^ k := hk ▸ Nat.dvd_mul_left _ _
  obtain ⟨j, -, hj⟩ := (Nat.dvd_prime_pow Nat.prime_two).mp hdvd
  refine ⟨i, j, hi, ?_, hspc, hj⟩
  have hle := h.cluster
  rw [hspc, hj, ← pow_add] at hle
  have hexp := @lt_of_two_pow_le (j + i) 16 hle
  omega

def GeometryInRange (bs : List UInt8) : Prop :=
  sectorsPerCluster bs ≤ numberOfSectors bs ∧
  bootMftLcn bs ≠ numberOfSectors bs / sectorsPerCluster bs ∧
  bootMftmirrLcn bs ≠ numberOfSectors bs / sectorsPerCluster bs ∧
  clustersPerMftRecord bs ≠ 0xe1 ∧ clustersPerMftRecord bs ≠ 0xe2

lemma BootAccepted.sound_iff (h : BootAccepted bs g) : g.Sound ↔ GeometryInRange bs := by
  obtain ⟨i, j, hi, hij, hspc, hbps⟩ := h.sizes
  have hsize : sectorsPerCluster bs * bytesPerSector bs = 2 ^ (i + j) := by
    rw [hspc, hbps, pow_add]
  have hk : sizeBits (sectorsPerCluster bs * bytesPerSector bs) = i + j := by
    rw [hsize, sizeBits_two_pow (by omega)]
  obtain ⟨m, hm, hmft, hsmall⟩ := recordSize_of_ok h.mftRecord hij
  obtain ⟨n, hn, hindx, -⟩ := recordSize_of_ok h.indexRecord hij
  have hclusters : g.nrClusters = numberOfSectors bs / sectorsPerCluster bs := by
    rw [h.geometry, bootGeometry]
    rw [hspc, sizeBits_two_pow (by omega)]
    rfl
  have hmirror : g.mftmirrSize = max 4 (g.clusterSize / g.mftRecordSize) ↔ m < 30 := by
    rw [h.geometry, bootGeometry]
    rw [hk, hmft, hsize]
    exact mirrorSize_eq_iff (Nat.two_pow_pos _) (Nat.pow_le_pow_right (by decide) hij) hm
  have hspcPos : (0 : Int) < sectorsPerCluster bs := by
    rw [hspc]
    exact_mod_cast Nat.two_pow_pos i
  have hone : 1 ≤ g.nrClusters ↔ (sectorsPerCluster bs : Int) ≤ numberOfSectors bs := by
    rw [hclusters, Int.le_ediv_iff_mul_le hspcPos, one_mul]
  have hmftLcn : g.mftLcn = bootMftLcn bs := by rw [h.geometry, bootGeometry]
  have hmirrLcn : g.mftmirrLcn = bootMftmirrLcn bs := by rw [h.geometry, bootGeometry]
  have hin := h.mftLcn
  have hin' := h.mftmirrLcn
  rw [GeometryInRange, ← hclusters, ← hmftLcn, ← hmirrLcn, ← hone, ← hsmall, ← hmirror]
  constructor
  · intro hs
    exact ⟨hs.nrClusters, ne_of_lt hs.mftLcn.2, ne_of_lt hs.mftmirrLcn.2, hs.mftmirrSize⟩
  · rintro ⟨hnr, hne, hne', hsize'⟩
    have hshapes : IsShift g.sectorSize g.sectorSizeBits ∧
        IsShift g.clusterSize g.clusterSizeBits ∧
        IsShift g.mftRecordSize g.mftRecordSizeBits ∧
        IsShift g.indxRecordSize g.indxRecordSizeBits ∧
        g.sectorSize ≤ g.clusterSize ∧ g.clusterSize ≤ 65536 := by
      rw [h.geometry, bootGeometry]
      rw [hk, hmft, hindx, hsize, hbps]
      refine ⟨isShift_two_pow (by omega), rfl, isShift_two_pow hm, isShift_two_pow hn,
        Nat.pow_le_pow_right (by decide) (by omega), Nat.pow_le_pow_right (by decide) hij⟩
    obtain ⟨hsector, hcluster, hmftShift, hindxShift, hle, hle'⟩ := hshapes
    exact ⟨hsector, hcluster, hmftShift, hindxShift, hle, hle', hnr,
      ⟨hin.1, lt_of_le_of_ne hin.2 hne⟩, ⟨hin'.1, lt_of_le_of_ne hin'.2 hne'⟩, hsize'⟩

/-- An accepted boot sector gives a sound geometry exactly if its fields are in range. -/
theorem ntfsBootSectorParse_sound_iff (hntfs : ntfsBootSectorIsNtfs bs = true)
    (hparse : ntfsBootSectorParse seek bs = some g) : g.Sound ↔ GeometryInRange bs :=
  (bootAccepted hntfs hparse).sound_iff

end

def sampleBoot (sectors mftLcn mftmirrLcn clustersPerMft : Nat) : List UInt8 :=
  let start := List.replicate 512 (0 : UInt8)
  let fields : List (Nat × Nat × Nat) :=
    [(0x03, 8, 0x202020205346544e), (0x0b, 2, 512), (0x0d, 1, 8), (0x28, 8, sectors),
      (0x30, 8, mftLcn), (0x38, 8, mftmirrLcn), (0x40, 1, clustersPerMft), (0x44, 1, 1)]
  fields.foldl (fun buf f => write buf f.1 f.2.1 f.2.2) start

/-- A volume of a million clusters. -/
theorem ntfsBootSectorParse_sound_million :
    ∃ g, ntfsBootSectorParse (fun _ => true) (sampleBoot 8000000 786432 2 0xf6) = some g ∧
      g.Sound := by
  have hntfs : ntfsBootSectorIsNtfs (sampleBoot 8000000 786432 2 0xf6) = true := by
    decide +kernel
  have hparse : ntfsBootSectorParse (fun _ => true) (sampleBoot 8000000 786432 2 0xf6) =
      some (bootGeometry (sampleBoot 8000000 786432 2 0xf6)) := by
    decide +kernel
  refine ⟨_, hparse, (ntfsBootSectorParse_sound_iff hntfs hparse).mpr ?_⟩
  refine ⟨?_, ?_, ?_, ?_, ?_⟩
  all_goals decide +kernel

/-- A volume of one sector with records of `2 ^ 30` bytes is accepted: it has no cluster, the
mft starts behind its end, and its mirror has no record. -/
theorem ntfsBootSectorParse_unsound :
    ntfsBootSectorIsNtfs (sampleBoot 1 0 0 0xe2) = true ∧
    ∃ g, ntfsBootSectorParse (fun _ => true) (sampleBoot 1 0 0 0xe2) = some g ∧
      g.nrClusters = 0 ∧ g.mftLcn = g.nrClusters ∧ g.mftRecordSize = 2 ^ 30 ∧
      g.mftmirrSize = 0 ∧ ¬ g.Sound := by
  refine ⟨by decide +kernel, bootGeometry (sampleBoot 1 0 0 0xe2), by decide +kernel,
    by decide +kernel, by decide +kernel, by decide +kernel, by decide +kernel, ?_⟩
  intro hsound
  have hone := hsound.nrClusters
  revert hone
  decide +kernel

end NtfsDxe
