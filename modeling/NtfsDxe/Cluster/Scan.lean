import NtfsDxe.Cluster.EmptyRange
import NtfsDxe.Cluster.Search

/-! # What a search finds

A zone is marked full when both passes over it are done. That is right if the search takes
the first clear bit it meets: then all the windows it has left behind have no clear bits.
-/

namespace NtfsDxe

open Foundation Bits List AllocState

/-! ## Zones -/

/-- A position in a zone; only that of an empty zone is at its end. -/
def PosInZone (start stop pos : Int) : Prop :=
  start ≤ pos ∧ pos ≤ stop ∧ (start < stop → pos < stop)

structure ZoneLayout (vol : AllocVolume) : Prop where
  start_nonneg : 0 ≤ vol.mftZoneStart
  start_le_lcn : vol.mftZoneStart ≤ vol.mftLcn
  lcn_le_end : vol.mftLcn ≤ vol.mftZoneEnd
  lcn_lt_end : vol.mftZoneStart < vol.mftZoneEnd → vol.mftLcn < vol.mftZoneEnd
  end_le : vol.mftZoneEnd ≤ vol.nrClusters
  covered : vol.nrClusters ≤ 8 * vol.lcnbmp.size
  pos : ∀ z, PosInZone (vol.zoneStart z) (vol.zoneEnd z) (vol.zonePos z)

def ZoneUsed (vol : AllocVolume) (z : Zone) : Prop :=
  ∀ k : Nat, vol.zoneStart z ≤ k → k < vol.zoneEnd z → vol.lcnbmp.bit k = true

/-- Only zones without a free cluster are marked full. -/
def Truthful (vol : AllocVolume) : Prop := ∀ z, vol.fullZones.has z = true → ZoneUsed vol z

structure SameZones (v v' : AllocVolume) : Prop where
  nrClusters : v'.nrClusters = v.nrClusters
  mftLcn : v'.mftLcn = v.mftLcn
  mftZoneStart : v'.mftZoneStart = v.mftZoneStart
  mftZoneEnd : v'.mftZoneEnd = v.mftZoneEnd

namespace SameZones

lemma refl (v : AllocVolume) : SameZones v v := ⟨rfl, rfl, rfl, rfl⟩

lemma trans (h : SameZones v v') (h' : SameZones v' v'') : SameZones v v'' :=
  ⟨h'.nrClusters.trans h.nrClusters, h'.mftLcn.trans h.mftLcn,
    h'.mftZoneStart.trans h.mftZoneStart, h'.mftZoneEnd.trans h.mftZoneEnd⟩

lemma zoneStart (h : SameZones v v') (z : Zone) : v'.zoneStart z = v.zoneStart z := by
  cases z with
  | mft => exact h.mftZoneStart
  | data1 => exact h.mftZoneEnd
  | data2 => rfl

lemma zoneEnd (h : SameZones v v') (z : Zone) : v'.zoneEnd z = v.zoneEnd z := by
  cases z with
  | mft => exact h.mftZoneEnd
  | data1 => exact h.nrClusters
  | data2 => exact h.mftZoneStart

lemma updateZonePos (v : AllocVolume) (z : Zone) (tc : Int) : SameZones v
    (v.updateZonePos z tc) := by
  cases z <;> exact ⟨rfl, rfl, rfl, rfl⟩

end SameZones

@[simp] lemma AllocVolume.updateZonePos_fullZones (v : AllocVolume) :
    (v.updateZonePos z tc).fullZones = v.fullZones := by
  cases z <;> rfl

namespace ZoneLayout

variable {vol v : AllocVolume}

/-- Besides the zones, the layout depends on the positions. -/
lemma of_pos (h : ZoneLayout vol) (hsame : SameZones vol v)
    (hsize : v.lcnbmp.size = vol.lcnbmp.size)
    (hpos : ∀ z, PosInZone (vol.zoneStart z) (vol.zoneEnd z) (v.zonePos z)) : ZoneLayout v where
  start_nonneg := by rw [hsame.mftZoneStart]; exact h.start_nonneg
  start_le_lcn := by rw [hsame.mftZoneStart, hsame.mftLcn]; exact h.start_le_lcn
  lcn_le_end := by rw [hsame.mftLcn, hsame.mftZoneEnd]; exact h.lcn_le_end
  lcn_lt_end := by
    rw [hsame.mftZoneStart, hsame.mftLcn, hsame.mftZoneEnd]
    exact h.lcn_lt_end
  end_le := by rw [hsame.mftZoneEnd, hsame.nrClusters]; exact h.end_le
  covered := by rw [hsame.nrClusters, hsize]; exact h.covered
  pos := fun z => by rw [hsame.zoneStart, hsame.zoneEnd]; exact hpos z

lemma clusterSetZonePos_mem {lo start stop pos : Int} (hlo : lo ≤ start) (hle : start ≤ stop)
    (hlt : lo < stop → start < stop) (hpos : PosInZone lo stop pos) :
    PosInZone lo stop (clusterSetZonePos start stop pos tc) := by
  rw [clusterSetZonePos]
  split_ifs with hbeyond hinside
  · exact ⟨hlo, hle, hlt⟩
  · exact ⟨le_trans hlo hinside, le_of_lt (not_le.mp hbeyond), fun _ => not_le.mp hbeyond⟩
  · exact hpos

section

variable (h : ZoneLayout vol) (z : Zone)
include h

lemma updateZonePos (tc : Int) : ZoneLayout (vol.updateZonePos z tc) := by
  apply h.of_pos (SameZones.updateZonePos vol z tc)
  · rw [AllocVolume.updateZonePos_lcnbmp]
  · intro z'
    have hz' := h.pos z'
    cases z with
    | mft =>
      cases z' with
      | mft => exact clusterSetZonePos_mem h.start_le_lcn h.lcn_le_end h.lcn_lt_end hz'
      | data1 => exact hz'
      | data2 => exact hz'
    | data1 =>
      cases z' with
      | mft => exact hz'
      | data1 => exact clusterSetZonePos_mem (le_refl _) h.end_le id hz'
      | data2 => exact hz'
    | data2 =>
      cases z' with
      | mft => exact hz'
      | data1 => exact hz'
      | data2 => exact clusterSetZonePos_mem (le_refl _) h.start_nonneg id hz'

lemma zoneStart_nonneg : 0 ≤ vol.zoneStart z := by
  have hnonneg := h.start_nonneg
  have hstart := h.start_le_lcn
  have hlcn := h.lcn_le_end
  cases z with
  | mft => exact hnonneg
  | data1 => exact le_trans hnonneg (le_trans hstart hlcn)
  | data2 => exact le_refl 0

lemma zoneEnd_le : vol.zoneEnd z ≤ vol.nrClusters := by
  have hstart := h.start_le_lcn
  have hlcn := h.lcn_le_end
  have hend := h.end_le
  cases z with
  | mft => exact hend
  | data1 => exact le_refl _
  | data2 => exact le_trans (le_trans hstart hlcn) hend

end

end ZoneLayout

lemma AllocVolume.zoneOf_mem {vol : AllocVolume} {k : Nat} (hk : (k : Int) < vol.nrClusters) :
    vol.zoneStart (vol.zoneOf k) ≤ k ∧ (k : Int) < vol.zoneEnd (vol.zoneOf k) := by
  rw [AllocVolume.zoneOf]
  split_ifs with hdata1 hdata2
  · exact ⟨hdata1, hk⟩
  · exact ⟨Int.natCast_nonneg k, hdata2⟩
  · exact ⟨not_lt.mp hdata2, not_le.mp hdata1⟩

/-! ## Searching a window -/

/-- What an allocation changes in a volume: bits are only set, and the marks are kept. -/
structure MoreUsed (v v' : AllocVolume) : Prop where
  zones : SameZones v v'
  size : v'.lcnbmp.size = v.lcnbmp.size
  layout : ZoneLayout v → ZoneLayout v'
  bits : ∀ k, v.lcnbmp.bit k = true → v'.lcnbmp.bit k = true

variable {w : AllocWindow} {s : AllocState} {flags : ZoneFlags}

lemma MoreUsed.zoneUsed (h : MoreUsed v v') (hused : ZoneUsed v z) : ZoneUsed v' z := by
  intro k hlo hhi
  rw [h.zones.zoneStart] at hlo
  rw [h.zones.zoneEnd] at hhi
  exact h.bits k (hused k hlo hhi)

lemma windowBit_setLcn (hlcn : w.lcn < 8 * w.buf.length) :
    windowBit w.setLcn.buf k = (windowBit w.buf k || decide (k = w.lcn)) := by
  have hbyte : w.lcn / 8 < w.buf.length := by omega
  rw [windowBit, windowBit, AllocWindow.setLcn]
  by_cases hsame : k / 8 = w.lcn / 8
  · rw [hsame, getD_eq_getElem?_getD, getElem?_set_self hbyte, Option.getD_some,
      getBit_setBit (by omega) (by omega)]
    by_cases hbit : k % 8 = w.lcn % 8
    · obtain rfl : k = w.lcn := by omega
      simp
    · have hne : k ≠ w.lcn := by omega
      simp [hbit, hne]
  · have hne : k ≠ w.lcn := by omega
    rw [getD_eq_getElem?_getD, getElem?_set_ne (Ne.symm hsame)]
    simp [hne]

lemma growRunlist_ok (hmemory : ∀ n, realloc n = true) (s : AllocState) :
    ∃ n, s.growRunlist realloc = some { s with rlsize := n } := by
  rw [growRunlist]
  split_ifs with hfull halloc
  · exact ⟨_, rfl⟩
  · exact absurd (hmemory _) halloc
  · exact ⟨s.rlsize, rfl⟩

/-- What remains of the search once the clusters are allocated. -/
structure WindowAllocated (s : AllocState) (w : AllocWindow) (s' : AllocState) (w' : AllocWindow) :
    Prop where
  more : MoreUsed s.vol s'.vol
  lcnbmp : s'.vol.lcnbmp = s.vol.lcnbmp
  fullZones : s'.vol.fullZones = s.vol.fullZones
  length : w'.buf.length = w.buf.length
  bits : ∀ k, windowBit w.buf k = true → windowBit w'.buf k = true

/-- One cluster is taken out of the volume. -/
lemma takeCluster_more (startVcn lcn : Int) (s : AllocState) :
    MoreUsed s.vol (s.takeCluster startVcn lcn).vol ∧
      (s.takeCluster startVcn lcn).vol.lcnbmp = s.vol.lcnbmp ∧
      (s.takeCluster startVcn lcn).vol.fullZones = s.vol.fullZones := by
  have hvol := (s.addCluster_same startVcn lcn).2.1
  have hnew : (s.takeCluster startVcn lcn).vol =
      { s.vol with
        freeClusters := if s.vol.freeClusters ≤ 0 then s.vol.freeClusters
          else s.vol.freeClusters - 1 } := by
    rw [takeCluster]
    rw [hvol]
  rw [hnew]
  refine ⟨⟨⟨rfl, rfl, rfl, rfl⟩, rfl, ?_, fun k hk => hk⟩, rfl, rfl⟩
  intro hlayout
  exact hlayout.of_pos ⟨rfl, rfl, rfl, rfl⟩ rfl hlayout.pos

lemma updateZonePos_more :
    MoreUsed s.vol (s.updateZonePos lcn).vol ∧ (s.updateZonePos lcn).vol.lcnbmp = s.vol.lcnbmp ∧
      (s.updateZonePos lcn).vol.fullZones = s.vol.fullZones := by
  rw [updateZonePos]
  split_ifs
  · refine ⟨⟨SameZones.updateZonePos _ _ _, ?_, fun h => h.updateZonePos _ _, ?_⟩,
      AllocVolume.updateZonePos_lcnbmp, AllocVolume.updateZonePos_fullZones _⟩
    · rw [AllocVolume.updateZonePos_lcnbmp]
    · intro k hk
      rw [AllocVolume.updateZonePos_lcnbmp]
      exact hk
  · exact ⟨⟨SameZones.refl _, rfl, fun h => h, fun k hk => hk⟩, rfl, rfl⟩

lemma MoreUsed.trans (h : MoreUsed v v') (h' : MoreUsed v' v'') : MoreUsed v v'' where
  zones := h.zones.trans h'.zones
  size := h'.size.trans h.size
  layout := fun hlayout => h'.layout (h.layout hlayout)
  bits := fun k hk => h'.bits k (h.bits k hk)

lemma windowLoop_clear (hmemory : ∀ n, realloc n = true) (startVcn : Int)
    (hguess : s.hasGuess = true) (hlcn : w.lcn < 8 * w.buf.length)
    (hbit : windowBit w.buf w.lcn = false) :
    ∃ t : AllocState, MoreUsed s.vol t.vol ∧ t.vol.lcnbmp = s.vol.lcnbmp ∧
      t.vol.fullZones = s.vol.fullZones ∧ t.clusters = s.clusters - 1 ∧
      windowLoop realloc startVcn s w =
        if t.clusters = 0 then (t.updateZonePos (s.bmpPos + w.lcn), w.setLcn, .allocated)
        else windowLoop realloc startVcn { t with hasGuess := true }
          { w.setLcn with lcn := w.lcn + 1 } := by
  obtain ⟨m, hgrow⟩ := growRunlist_ok hmemory s
  obtain ⟨hmore, hbmp, hfull⟩ := takeCluster_more startVcn (s.bmpPos + w.lcn) { s with rlsize := m }
  have hleft := (takeCluster_same startVcn (s.bmpPos + w.lcn)
    { s with rlsize := m }).2.2
  refine ⟨_, hmore, hbmp, hfull, hleft, ?_⟩
  rw [windowLoop, if_pos hlcn, if_pos hguess, ← windowBit, hbit, if_neg (by decide), hgrow]

/-- The marks do not matter for what is in use. -/
lemma MoreUsed.setFull (full : ZoneFlags) : MoreUsed v { v with fullZones := full } where
  zones := ⟨rfl, rfl, rfl, rfl⟩
  size := rfl
  layout := fun h => h.of_pos ⟨rfl, rfl, rfl, rfl⟩ rfl h.pos
  bits := fun _ hk => hk

/-- As many clear bits as clusters are left to be allocated. -/
lemma windowLoop_allocates (hmemory : ∀ n, realloc n = true) (startVcn : Int) {n : Nat}
    (hguess : s.hasGuess = true) (hclusters : s.clusters = n + 1)
    (hclear : ClearRange w.buf w.lcn (n + 1))
    (hfit : w.lcn + (n + 1) ≤ 8 * w.buf.length) :
    ∃ s' w', windowLoop realloc startVcn s w = (s', w', .allocated) ∧
      WindowAllocated s w s' w' ∧ w'.writeback = true := by
  induction n generalizing s w with
  | zero =>
    have hlcn : w.lcn < 8 * w.buf.length := by omega
    obtain ⟨t, hmore, hbmp, hfull, hleft, hloop⟩ :=
      windowLoop_clear hmemory startVcn hguess hlcn (hclear w.lcn (le_refl _) (by omega))
    rw [if_pos (by omega)] at hloop
    obtain ⟨hmore', hbmp', hfull'⟩ := updateZonePos_more
    refine ⟨_, _, hloop, ⟨hmore.trans hmore', hbmp'.trans hbmp, hfull'.trans hfull,
      length_set .., ?_⟩, rfl⟩
    intro k hk
    rw [windowBit_setLcn hlcn, hk, Bool.true_or]
  | succ n ih =>
    have hlcn : w.lcn < 8 * w.buf.length := by omega
    have hlen : w.setLcn.buf.length = w.buf.length := length_set ..
    obtain ⟨t, hmore, hbmp, hfull, hleft, hloop⟩ :=
      windowLoop_clear hmemory startVcn hguess hlcn (hclear w.lcn (le_refl _) (by omega))
    rw [if_neg (by omega)] at hloop
    have hrest : ClearRange w.setLcn.buf (w.lcn + 1) (n + 1) := by
      intro k hlo hhi
      have hne : k ≠ w.lcn := by omega
      rw [windowBit_setLcn hlcn, hclear k (by omega) (by omega), decide_eq_false hne]
      rfl
    have hclusters' : t.clusters = n + 1 := by omega
    have hfit' : w.lcn + 1 + (n + 1) ≤ 8 * w.setLcn.buf.length := by omega
    obtain ⟨s', w', hrun, hdone, hback⟩ :=
      ih (s := { t with hasGuess := true }) (w := { w.setLcn with lcn := w.lcn + 1 })
        rfl hclusters' hrest hfit'
    refine ⟨s', w', hloop.trans hrun, ⟨hmore.trans hdone.more, hdone.lcnbmp.trans hbmp,
      hdone.fullZones.trans hfull, hdone.length.trans hlen, ?_⟩, hback⟩
    intro k hk
    apply hdone.bits
    rw [windowBit_setLcn hlcn, hk, Bool.true_or]

/-- Without a guess, a window without clear bits is left as it is. -/
lemma windowLoop_used (startVcn : Int) (hguess : s.hasGuess = false)
    (hused : ∀ k < 8 * w.buf.length, windowBit w.buf k = true) :
    windowLoop realloc startVcn s w = (s, w, .leave) := by
  rw [windowLoop]
  by_cases hlcn : w.lcn < 8 * w.buf.length
  · rw [if_pos hlcn, hguess, if_neg (by decide)]
    have hshort : ShortRanges w.buf := fun a n hfit hclear => by
      have := hclear.eq_zero hfit hused
      omega
    rcases maxEmptyBitRange_longest hshort with ⟨hnone, -⟩ | ⟨start, n, -, hpos, hfit, hclear, -⟩
    · rw [hnone, if_pos (by decide)]
    · exact absurd (hclear.eq_zero hfit hused) hpos.ne'
  · rw [if_neg hlcn]

/-- Without a guess, a range that is long enough is found. -/
lemma windowLoop_fits (hmemory : ∀ n, realloc n = true) (startVcn : Int) {n a : Nat}
    (hguess : s.hasGuess = false) (hclusters : s.clusters = n + 1) (hlcn : w.lcn < 8 * w.buf.length)
    (hsize : w.buf.length ≤ 4096) (hclear : ClearRange w.buf a (n + 1))
    (hfit : a + (n + 1) ≤ 8 * w.buf.length) :
    ∃ s' w', windowLoop realloc startVcn s w = (s', w', .allocated) ∧
      WindowAllocated s w s' w' ∧ w'.writeback = true := by
  rw [windowLoop, if_pos hlcn, hguess, if_neg (by decide)]
  have hshort : ShortRanges w.buf := fun a n hfit _ => by omega
  rcases maxEmptyBitRange_longest hshort with ⟨-, hused⟩ | ⟨start, m, hstart, -, hend, hrange, hmax⟩
  · exact absurd (hclear.eq_zero hfit hused) (Nat.succ_ne_zero n)
  · have hlonger : n + 1 ≤ m := hmax a (n + 1) hfit hclear
    rw [hstart]
    obtain ⟨s', w', hrun, hdone, hback⟩ :=
      windowLoop_allocates hmemory startVcn (s := { s with hasGuess := true })
        (w := { w with lcn := start }) rfl hclusters (hrange.mono hlonger) (by dsimp only; omega)
    exact ⟨s', w', hrun, { hdone with },
      hback⟩

/-! ## Reading and writing a window -/

lemma pread_window (na : AttrData) (hpos : 0 ≤ pos) :
    ∃ buf, na.pread (pos / 8) lcnallocBsize = .ok buf ∧
      buf.length = min 4096 (na.size - (pos / 8).toNat) ∧
      ∀ k < 8 * buf.length, windowBit buf k = na.bit (8 * (pos / 8).toNat + k) := by
  refine ⟨_, na.pread_ok (by omega) (by decide), ?_, ?_⟩
  · rw [length_map, length_range]
    rfl
  · intro k hk
    rw [length_map, length_range] at hk
    have hbyte : k / 8 < min lcnallocBsize.toNat (na.size - (pos / 8).toNat) := by omega
    rw [windowBit, getD_eq_getElem?_getD, getElem?_map, getElem?_range hbyte]
    have hk8 : 8 * (pos / 8).toNat + k = 8 * ((pos / 8).toNat + k / 8) + k % 8 := by omega
    rw [hk8, na.bit_byte (Nat.mod_lt k (by decide))]
    rfl

lemma writeback_more {vol : AllocVolume} {pos : Int} {buf : Buffer}
    (hpos : 0 ≤ pos) (hlen : w.buf.length = buf.length)
    (hsize : (pos / 8).toNat + buf.length ≤ vol.lcnbmp.size)
    (hread : ∀ k < 8 * buf.length, windowBit buf k = vol.lcnbmp.bit (8 * (pos / 8).toNat + k))
    (hmore : ∀ k, windowBit buf k = true → windowBit w.buf k = true) (hback : w.writeback = true) :
    ∃ v, bitmapWriteback vol (pos / 8) w = .ok v ∧ MoreUsed vol v ∧
      v.fullZones = vol.fullZones := by
  obtain ⟨na, hwrite, hna, hbyte⟩ :=
    @AttrData.pwrite_ok vol.lcnbmp (pos / 8) w.buf (by omega) (by rw [hlen]; exact hsize)
  refine ⟨{ vol with lcnbmp := na }, ?_, ⟨⟨rfl, rfl, rfl, rfl⟩, hna, ?_, ?_⟩, rfl⟩
  · rw [bitmapWriteback, if_pos hback, hwrite]
  · intro hlayout
    exact hlayout.of_pos ⟨rfl, rfl, rfl, rfl⟩ hna hlayout.pos
  · intro k hk
    rw [AttrData.bit, hbyte]
    by_cases hin : (pos / 8).toNat ≤ k / 8 ∧ k / 8 < (pos / 8).toNat + w.buf.length
    · rw [if_pos hin]
      have hoff : 8 * (pos / 8).toNat + (k - 8 * (pos / 8).toNat) = k := by omega
      have hold := hread (k - 8 * (pos / 8).toNat) (by omega)
      rw [hoff, hk] at hold
      have hnew := hmore _ hold
      rw [windowBit] at hnew
      have hdiv : (k - 8 * (pos / 8).toNat) / 8 = k / 8 - (pos / 8).toNat := by omega
      have hmod : (k - 8 * (pos / 8).toNat) % 8 = k % 8 := by omega
      rw [hdiv, hmod] at hnew
      exact hnew
    · rw [if_neg hin]
      exact hk

/-- `count` adjacent clear bits in the window at a position. -/
def WindowFits (na : AttrData) (pos : Int) (count : Nat) : Prop :=
  ∃ a, 8 * (pos / 8).toNat ≤ a ∧ a + count ≤ 8 * min ((pos / 8).toNat + 4096) na.size ∧
    ∀ k, a ≤ k → k < a + count → na.bit k = false

/-- A window with enough adjacent clear bits ends the search. -/
lemma windowStep_fits (hmemory : ∀ n, realloc n = true) (startVcn : Int) {n : Nat}
    (hzone : s.vol.fullZones.has s.searchZone = false)
    (hpos : 0 ≤ s.bmpPos) (hguess : s.hasGuess = false) (hclusters : s.clusters = n + 1)
    (hfits : WindowFits s.vol.lcnbmp s.bmpPos (n + 1)) :
    ∃ v rl, windowStep realloc startVcn s = .inr (.done v rl) ∧ MoreUsed s.vol v ∧
      v.fullZones = s.vol.fullZones := by
  obtain ⟨a, hlo, hhi, hbits⟩ := hfits
  obtain ⟨buf, hread, hlen, hbuf⟩ := pread_window s.vol.lcnbmp hpos
  have hclear : ClearRange buf (a - 8 * (s.bmpPos / 8).toNat) (n + 1) := by
    intro k hklo hkhi
    rw [hbuf k (by omega)]
    exact hbits _ (by omega) (by omega)
  rw [windowStep, hzone, hread]
  cases buf with
  | nil =>
    rw [length_nil] at hlen
    omega
  | cons b rest =>
    dsimp only
    obtain ⟨s', w', hloop, hdone, hback⟩ :=
      windowLoop_fits hmemory startVcn (s := { s with bmpPos := s.bmpPos / 8 * 8 })
        (w := { buf := b :: rest, lcn := (s.bmpPos % 8).toNat, writeback := false }) hguess
        hclusters (by dsimp only; omega) (by dsimp only; omega) hclear (by dsimp only; omega)
    have hbmp : s'.vol.lcnbmp = s.vol.lcnbmp := hdone.lcnbmp
    obtain ⟨v, hwrite, hmore, hfull⟩ :=
      @writeback_more w' s'.vol s.bmpPos (b :: rest) hpos hdone.length
        (by rw [hbmp]; omega) (by rw [hbmp]; exact hbuf) hdone.bits hback
    rw [hloop]
    rw [finishWindow, hwrite]
    exact ⟨v, _, rfl, hdone.more.trans hmore, hfull.trans hdone.fullZones⟩

/-- A window without clear bits is passed. -/
lemma windowStep_used (hzone : s.vol.fullZones.has s.searchZone = false)
    (hguess : s.hasGuess = false)
    (hread : s.vol.lcnbmp.pread (s.bmpPos / 8) lcnallocBsize = .ok buf) (hne : buf ≠ [])
    (hused : ∀ k < 8 * buf.length, windowBit buf k = true) :
    windowStep realloc startVcn s =
      .inl ({ s with bmpPos := s.bmpPos / 8 * 8 }.nextWindow (8 * buf.length)) := by
  rw [windowStep, hzone, hread]
  cases buf with
  | nil => exact absurd rfl hne
  | cons b rest =>
    dsimp only
    rw [windowLoop_used startVcn (by exact hguess) (by exact hused)]
    rfl

/-! ## The search for one cluster -/

/-- What is known at a point of the search of a zone: the clusters that have been passed are
in use. -/
def ZonePassed (vol : AllocVolume) (s : AllocState) : AllocPoint → Prop
  | .window =>
    (s.pass = 1 → s.zoneEnd = vol.zoneEnd s.searchZone ∧
      ∀ k : Nat, vol.zoneStart s.searchZone ≤ k → k < vol.zoneEnd s.searchZone →
        s.zoneStart ≤ k → k < s.bmpPos → vol.lcnbmp.bit k = true) ∧
    (s.pass ≠ 1 → ∀ k : Nat, vol.zoneStart s.searchZone ≤ k → k < vol.zoneEnd s.searchZone →
      k < s.bmpPos ∨ s.zoneEnd ≤ k → vol.lcnbmp.bit k = true)
  | .zonePassDone =>
    ∀ k : Nat, vol.zoneStart s.searchZone ≤ k → k < vol.zoneEnd s.searchZone →
      (s.pass = 1 → s.zoneStart ≤ k) → vol.lcnbmp.bit k = true
  | .doneZonesCheck => ZoneUsed vol s.searchZone

/-- The invariant of the search for one cluster, as long as there is none. -/
structure Scan (vol : AllocVolume) (s : AllocState) : Prop where
  vol_eq : s.vol = { vol with fullZones := s.vol.fullZones }
  rl : s.rl = []
  clusters : s.clusters = 1
  noGuess : s.hasGuess = false
  usedPos : s.usedZonePos = true
  bmpPos_nonneg : 0 ≤ s.bmpPos
  zones : ZonesInOrder s.searchZone s.doneZones
  full : ∀ z, s.vol.fullZones.has z = true → ZoneUsed vol z
  done : ∀ z, s.doneZones.has z = true → ZoneUsed vol z
  passed : ZonePassed vol s s.point

/-- The search for one cluster either takes one or finds that there is none. -/
def ScanExit (vol : AllocVolume) : AllocExit → Prop
  | .done v _ => MoreUsed vol v ∧ ∀ z, v.fullZones.has z = true → ZoneUsed vol z
  | .failed v rl e => rl = [] ∧ e = .errno .enospc ∧ v = { vol with fullZones := v.fullZones } ∧
      ∀ z, ZoneUsed vol z

lemma ZoneFlags.has_insert (h : (flags.insert z).has z' = true) : z' = z ∨ flags.has z' = true := by
  cases z <;> cases z' <;> first | exact .inl rfl | exact .inr h

lemma ZoneFlags.has_of_all (h : flags.all = true) : flags.has z = true := by
  rw [ZoneFlags.all, Bool.and_eq_true, Bool.and_eq_true] at h
  cases z with
  | mft => exact h.1.1
  | data1 => exact h.1.2
  | data2 => exact h.2

variable {vol : AllocVolume} {s : AllocState}

lemma Scan.passDone (hs : Scan vol s) (hlayout : ZoneLayout vol)
    (hpoint : s.point = .zonePassDone) : Scan vol s.passDone := by
  have hpassed := hs.passed
  rw [hpoint] at hpassed
  rw [AllocState.passDone]
  by_cases hpass : s.pass = 1
  · rw [if_pos hpass]
    have hstart : s.vol.zoneStart s.searchZone = vol.zoneStart s.searchZone := by
      rw [hs.vol_eq]
      rfl
    refine { hs with bmpPos_nonneg := ?_, passed := ⟨(fun h => by cases h), fun _ => ?_⟩ }
    · rw [hstart]
      exact hlayout.zoneStart_nonneg s.searchZone
    · intro k hlo hhi hk
      dsimp only at hlo hhi hk
      -- what is not behind the old start of the search is before the new one
      apply hpassed k hlo hhi
      omega
  · rw [if_neg hpass]
    exact { hs with passed := fun k hlo hhi => hpassed k hlo hhi fun h => absurd h hpass }

/-- A search of a zone that starts at its position, where no cluster is passed yet. -/
lemma zonePassed_start (hzone : s.searchZone = z) (hstart : s.zoneStart = vol.zonePos z)
    (hpos : s.bmpPos = vol.zonePos z) (hend : s.zoneEnd = vol.zoneEnd z)
    (hpass : s.pass ≠ 1 → vol.zonePos z = vol.zoneStart z) : ZonePassed vol s .window := by
  subst hzone
  refine ⟨fun _ => ⟨hend, fun k hlo hhi hge hlt => ?_⟩, fun hne k hlo hhi hk => ?_⟩
  · rw [hstart] at hge
    rw [hpos] at hlt
    exact absurd hlt (not_lt.mpr hge)
  · rw [hpos, hpass hne, hend] at hk
    rcases hk with hbefore | hbehind
    · exact absurd hbefore (not_lt.mpr hlo)
    · exact absurd hhi (not_lt.mpr hbehind)

lemma Scan.switchZone (hs : Scan vol s) (hlayout : ZoneLayout vol) {full done : ZoneFlags}
    (hfull : ∀ z, full.has z = true → ZoneUsed vol z)
    (hdone : ∀ z, done.has z = true → ZoneUsed vol z)
    (hzones : ZonesInOrder (nextZone s.searchZone done) done) :
    Scan vol { s with vol := { s.vol with fullZones := full }, doneZones := done }.switchZone := by
  have hvol : { s.vol with fullZones := full } = { vol with fullZones := full } := by
    rw [hs.vol_eq]
  have hpos : ∀ z, { vol with fullZones := full }.zonePos z = vol.zonePos z := fun z => by
    cases z <;> rfl
  have hstart : ∀ z, { vol with fullZones := full }.zoneStart z = vol.zoneStart z := fun z => by
    cases z <;> rfl
  have hend : ∀ z, { vol with fullZones := full }.zoneEnd z = vol.zoneEnd z := fun z => by
    cases z <;> rfl
  rw [AllocState.switchZone, hs.rl, hvol]
  generalize nextZone s.searchZone done = z at hzones ⊢
  have hzone := hlayout.pos z
  have hnonneg := hlayout.zoneStart_nonneg z
  rw [hpos, hstart, hend]
  refine
    { vol_eq := rfl, rl := rfl, clusters := hs.clusters, noGuess := hs.noGuess
      usedPos := hs.usedPos, bmpPos_nonneg := le_trans hnonneg hzone.1, zones := hzones
      full := hfull, done := hdone, passed := ?_ }
  by_cases hempty : vol.zonePos z = vol.zoneEnd z
  · -- only an empty zone is skipped
    rw [if_pos hempty]
    intro k hlo hhi
    have hlt := hzone.2.2 (lt_of_le_of_lt hlo hhi)
    rw [hempty] at hlt
    exact absurd hlt (lt_irrefl _)
  · rw [if_neg hempty]
    apply zonePassed_start rfl rfl rfl rfl
    intro hpass
    by_contra hne
    rw [if_neg hne] at hpass
    exact hpass rfl

lemma zoneUsed_insert (hflags : ∀ z, flags.has z = true → ZoneUsed vol z) (hused : ZoneUsed vol z')
    (z : Zone) (hz : (flags.insert z').has z = true) : ZoneUsed vol z := by
  rcases ZoneFlags.has_insert hz with rfl | hold
  · exact hused
  · exact hflags z hold

lemma Scan.doneZonesStep (hs : Scan vol s) (hlayout : ZoneLayout vol)
    (hpoint : s.point = .doneZonesCheck) :
    (∃ s', doneZonesStep s = .inl s' ∧ Scan vol s' ∧
      searchRank size s' < searchRank size s) ∨
      ∃ r, doneZonesStep s = .inr r ∧ ScanExit vol r := by
  have hused : ZoneUsed vol s.searchZone := by
    have hpassed := hs.passed
    rw [hpoint] at hpassed
    exact hpassed
  have hdone := zoneUsed_insert hs.done hused
  have hfull := zoneUsed_insert hs.full hused
  have hvol : { s.vol with fullZones := s.vol.fullZones.insert s.searchZone } =
      { vol with fullZones := s.vol.fullZones.insert s.searchZone } := by
    rw [hs.vol_eq]
  rw [NtfsDxe.doneZonesStep]
  cases hall : (s.doneZones.insert s.searchZone).all with
  | true =>
    refine .inr ⟨_, rfl, hs.rl, rfl, hvol, ?_⟩
    intro z
    exact hdone z (ZoneFlags.has_of_all hall)
  | false =>
    obtain ⟨hzones, hrank⟩ := nextZone_inOrder hs.zones hall
    exact .inl ⟨_, rfl, hs.switchZone hlayout hfull hdone hzones, searchRank_lt (.inl hrank)⟩

section

variable (hpassed : ZonePassed vol s .window) {pos : Int}
  (hused : ∀ k : Nat, vol.zoneStart s.searchZone ≤ k → k < vol.zoneEnd s.searchZone →
    s.bmpPos ≤ k → k < pos → vol.lcnbmp.bit k = true)
include hpassed hused

/-- The clusters of a zone are passed when the position is behind them. -/
lemma zonePassed_done (hbehind : s.zoneEnd ≤ pos) : ZonePassed vol s .zonePassDone := by
  intro k hlo hhi hpass
  rcases lt_or_ge (k : Int) s.bmpPos with hbefore | hafter
  · by_cases hone : s.pass = 1
    · exact (hpassed.1 hone).2 k hlo hhi (hpass hone) hbefore
    · exact hpassed.2 hone k hlo hhi (.inl hbefore)
  · rcases lt_or_ge (k : Int) pos with hin | hout
    · exact hused k hlo hhi hafter hin
    · by_cases hone : s.pass = 1
      · rw [← (hpassed.1 hone).1] at hhi
        exact absurd hhi (not_lt.mpr (le_trans hbehind hout))
      · exact hpassed.2 hone k hlo hhi (.inr (le_trans hbehind hout))

lemma zonePassed_next : ZonePassed vol { s with bmpPos := pos } .window := by
  refine ⟨fun hone => ⟨(hpassed.1 hone).1, fun k hlo hhi hge hlt => ?_⟩, fun hne k hlo hhi hk => ?_⟩
  · rcases lt_or_ge (k : Int) s.bmpPos with hbefore | hafter
    · exact (hpassed.1 hone).2 k hlo hhi hge hbefore
    · exact hused k hlo hhi hafter hlt
  · rcases hk with hlt | hbehind
    · rcases lt_or_ge (k : Int) s.bmpPos with hbefore | hafter
      · exact hpassed.2 hne k hlo hhi (.inl hbefore)
      · exact hused k hlo hhi hafter hlt
    · exact hpassed.2 hne k hlo hhi (.inr hbehind)

end

lemma Scan.windowStep (hs : Scan vol s) (hlayout : ZoneLayout vol) (hpoint : s.point = .window)
    (hmemory : ∀ n, realloc n = true) :
    (∃ s', windowStep realloc startVcn s = .inl s' ∧ Scan vol s' ∧
      searchRank vol.lcnbmp.size s' < searchRank vol.lcnbmp.size s) ∨
      ∃ r, windowStep realloc startVcn s = .inr r ∧ ScanExit vol r := by
  have hpassed := hs.passed
  rw [hpoint] at hpassed
  have hbmp : s.vol.lcnbmp = vol.lcnbmp := by rw [hs.vol_eq]
  cases hfull : s.vol.fullZones.has s.searchZone with
  | true =>
    left
    refine ⟨{ s with point := .zonePassDone }, ?_, { hs with passed := ?_ },
      zonePassDone_rank hpoint⟩
    · rw [NtfsDxe.windowStep, if_pos hfull]
    · intro k hlo hhi _
      exact hs.full _ hfull k hlo hhi
  | false =>
    obtain ⟨buf, hread, hlen, hbits⟩ := pread_window s.vol.lcnbmp hs.bmpPos_nonneg
    rw [hbmp] at hlen hbits
    have hcovered := hlayout.covered
    have hzoneEnd := hlayout.zoneEnd_le s.searchZone
    have hnonneg := hs.bmpPos_nonneg
    by_cases hused : ∀ k < 8 * buf.length, windowBit buf k = true
    · left
      by_cases hne : buf = []
      · -- the position is behind the bitmap
        rw [hne, length_nil] at hlen
        refine ⟨{ s with point := .zonePassDone }, ?_,
          { hs with passed := zonePassed_done hpassed ?_ (le_refl _) }, zonePassDone_rank hpoint⟩
        · rw [NtfsDxe.windowStep, hfull, if_neg (by decide), hread, hne]
        · intro k _ hhi hge _
          dsimp only at hhi hge
          omega
      · have hpos := length_pos_iff.mpr hne
        have hnext : ∀ k : Nat, vol.zoneStart s.searchZone ≤ k → k < vol.zoneEnd s.searchZone →
            s.bmpPos ≤ k → k < s.bmpPos / 8 * 8 + 8 * buf.length → vol.lcnbmp.bit k = true := by
          intro k _ _ hge hlt
          have hbit := hbits (k - 8 * (s.bmpPos / 8).toNat) (by omega)
          have hoff : 8 * (s.bmpPos / 8).toNat + (k - 8 * (s.bmpPos / 8).toNat) = k := by omega
          rw [hoff] at hbit
          rw [← hbit]
          exact hused _ (by omega)
        refine ⟨_, windowStep_used hfull hs.noGuess hread hne hused, ?_,
          nextWindow_rank hpoint (SameSearch.refl _) (by omega) (by omega)⟩
        rw [nextWindow]
        rw [hs.usedPos, if_pos rfl]
        refine { hs with usedPos := rfl, bmpPos_nonneg := by dsimp only; omega, passed := ?_ }
        by_cases hinside : s.bmpPos / 8 * 8 + 8 * buf.length < s.zoneEnd
        · rw [if_pos hinside]
          exact zonePassed_next hpassed hnext
        · rw [if_neg hinside]
          exact @zonePassed_done vol s hpassed _ hnext (not_lt.mp hinside)
    · -- one clear bit is enough
      right
      rw [not_forall] at hused
      obtain ⟨k, hclear⟩ := hused
      rw [Classical.not_imp, Bool.not_eq_true] at hclear
      obtain ⟨hk, hclear⟩ := hclear
      rw [hbits k hk, ← hbmp] at hclear
      have hfits : WindowFits s.vol.lcnbmp s.bmpPos 1 := by
        refine ⟨8 * (s.bmpPos / 8).toNat + k, by omega, ?_, ?_⟩
        · rw [hbmp]
          omega
        · intro j hlo hhi
          obtain rfl : j = 8 * (s.bmpPos / 8).toNat + k := by omega
          exact hclear
      obtain ⟨v, rl, hstep, hmore, hmarks⟩ := windowStep_fits hmemory startVcn hfull
        hs.bmpPos_nonneg hs.noGuess hs.clusters hfits
      refine ⟨_, hstep, ?_, ?_⟩
      · have hsame : MoreUsed vol s.vol := by
          rw [hs.vol_eq]
          exact .setFull _
        exact hsame.trans hmore
      · rw [hmarks]
        exact hs.full

lemma Scan.ends (hs : Scan vol s) (hlayout : ZoneLayout vol) (hmemory : ∀ n, realloc n = true) :
    ∃ fuel r, Loop.run (allocStep realloc startVcn) fuel s = some r ∧ ScanExit vol r := by
  refine Loop.run_total (searchRank vol.lcnbmp.size) (fun s hs => ?_) hs
  rw [allocStep]
  cases hpoint : s.point with
  | window => exact hs.windowStep hlayout hpoint hmemory
  | zonePassDone => exact .inl ⟨_, rfl, hs.passDone hlayout hpoint, passDone_rank hpoint⟩
  | doneZonesCheck => exact hs.doneZonesStep hlayout hpoint

end NtfsDxe
