import NtfsDxe.Cluster.Calls
import NtfsDxe.Cluster.Scan

/-! # The marks of full zones

A zone that is marked full is not searched. The marks are right as long as no
search leaves clear bits behind and no run that is freed reaches into a second
zone; then a single cluster is found whenever there is one. A search for more
clusters takes only one run of each window, and can leave clear bits behind.
-/

namespace NtfsDxe

open Foundation Bits List ClusterCall ZoneFlags

/-! ## Mounting -/

lemma capZoneSize_fits (hlcn : mftLcn < nrClusters) (size : Nat) :
    mftLcn + capZoneSize mftLcn nrClusters size < nrClusters := by
  fun_induction capZoneSize mftLcn nrClusters size with
  | case1 size h =>
    rcases h with hfits | rfl
    · exact hfits
    · simpa using hlcn
  | case2 size h ih => exact ih

/-- The layout of the zones and the marks of a volume are right. -/
structure WellMarked (vol : AllocVolume) : Prop where
  layout : ZoneLayout vol
  truthful : Truthful vol

section Mount

variable {nrClusters freeClusters mftLcn : Int}

/-- The zones of a mounted volume. The zone of the mft may be empty, but not if it has been
extended to the beginning of the volume. -/
lemma mountZones_wellMarked (hnonneg : 0 ≤ mftLcn) (hlcn : mftLcn < nrClusters)
    (hcovered : nrClusters ≤ 8 * lcnbmp.size)
    (hvol : vol = mountZones lcnbmp nrClusters freeClusters mftLcn clusterSize)
    (hzone : vol.mftZoneStart < vol.mftZoneEnd → vol.mftLcn < vol.mftZoneEnd) : WellMarked vol := by
  have hend := capZoneSize_fits hlcn (nrClusters / 8).toNat
  have hstart : 0 ≤ vol.mftZoneStart ∧ vol.mftZoneStart ≤ mftLcn := by
    rw [hvol, mountZones]
    split_ifs
    · exact ⟨le_refl 0, hnonneg⟩
    · exact ⟨hnonneg, le_refl _⟩
  have hmft : vol.mftLcn = mftLcn := by rw [hvol]; rfl
  have hpos : vol.mftZonePos = mftLcn := by rw [hvol]; rfl
  have hpos1 : vol.data1ZonePos = vol.mftZoneEnd := by rw [hvol]; rfl
  have hpos2 : vol.data2ZonePos = 0 := by rw [hvol]; rfl
  have hnr : vol.nrClusters = nrClusters := by rw [hvol]; rfl
  have hbmp : vol.lcnbmp = lcnbmp := by rw [hvol]; rfl
  have hfull : vol.fullZones = empty := by rw [hvol]; rfl
  have hsize : mftLcn ≤ vol.mftZoneEnd ∧ vol.mftZoneEnd < nrClusters := by
    rw [hvol]
    exact ⟨by simp [mountZones], hend⟩
  refine ⟨⟨hstart.1, ?_, ?_, hzone, ?_, ?_, fun z => ?_⟩, fun z hz => ?_⟩
  · rw [hmft]; exact hstart.2
  · rw [hmft]; exact hsize.1
  · rw [hnr]; exact le_of_lt hsize.2
  · rw [hnr, hbmp]; exact hcovered
  · have hmftPos : PosInZone vol.mftZoneStart vol.mftZoneEnd vol.mftZonePos := by
      rw [hpos]
      exact ⟨hstart.2, hsize.1, fun h => hmft ▸ hzone h⟩
    have hdata1 : PosInZone vol.mftZoneEnd vol.nrClusters vol.data1ZonePos := by
      rw [hpos1, hnr]
      exact ⟨le_refl _, le_of_lt hsize.2, id⟩
    have hdata2 : PosInZone 0 vol.mftZoneStart vol.data2ZonePos := by
      rw [hpos2]
      exact ⟨le_refl _, hstart.1, id⟩
    cases z with
    | mft => exact hmftPos
    | data1 => exact hdata1
    | data2 => exact hdata2
  · rw [hfull] at hz
    cases z <;> cases hz

end Mount

/-! ## Allocating -/

/-- The zone in which a search without a hint starts. -/
def AllocationZone.first : AllocationZone → Zone
  | .data => .data1
  | .mft => .mft

lemma zonesInOrder_empty : ZonesInOrder z empty := by
  cases z with
  | mft => exact ⟨rfl, fun h => by cases h⟩
  | data1 => rfl
  | data2 => exact fun h => by cases h

/-- A search without a hint starts at the position of its zone. -/
lemma allocInitial_zoneStart (vol : AllocVolume) (count : Int) (zone : AllocationZone) :
    (allocInitial vol count (-1) zone).zoneStart = vol.zonePos zone.first := by
  cases zone <;> rfl

variable {vol v : AllocVolume} {count lcn length : Int}

lemma allocInitial_nonneg (hlayout : ZoneLayout vol) (count : Int) (zone : AllocationZone) :
    0 ≤ (allocInitial vol count (-1) zone).bmpPos := by
  change 0 ≤ (allocInitial vol count (-1) zone).zoneStart
  rw [allocInitial_zoneStart]
  exact le_trans (hlayout.zoneStart_nonneg _) (hlayout.pos _).1

/-- The only pass of a search from the start of a zone covers the zone. -/
lemma atZoneStart_le (hlayout : ZoneLayout vol) (hstart : vol.atZoneStart pos = true) :
    pos ≤ vol.zoneStart (if pos < vol.mftZoneStart then Zone.data2
      else if pos < vol.mftZoneEnd then Zone.mft else Zone.data1) := by
  have hnonneg := hlayout.start_nonneg
  have hle := hlayout.start_le_lcn
  have hle' := hlayout.lcn_le_end
  rw [AllocVolume.atZoneStart, Bool.or_eq_true, Bool.or_eq_true, beq_iff_eq, beq_iff_eq,
    beq_iff_eq] at hstart
  split_ifs with hdata2 hmft
  · change pos ≤ 0
    omega
  · change pos ≤ vol.mftZoneStart
    omega
  · change pos ≤ vol.mftZoneEnd
    omega

/-- The search for one cluster starts with nothing left behind. -/
lemma allocInitial_scan (hvol : WellMarked vol) : Scan vol (allocInitial vol 1 (-1) zone) := by
  have hnonneg := allocInitial_nonneg hvol.layout 1 zone
  refine ⟨rfl, rfl, rfl, rfl, rfl, hnonneg, zonesInOrder_empty, hvol.truthful, ?_, ?_⟩
  · intro z hz
    cases z <;> cases hz
  · refine ⟨fun _ => ⟨rfl, fun k _ _ hge hlt => absurd hlt (not_lt.mpr hge)⟩, ?_⟩
    intro hpass k hlo hhi hk
    have hstart : vol.atZoneStart (allocInitial vol 1 (-1) zone).bmpPos = true := by
      by_contra hnot
      exact hpass (if_neg hnot)
    have hbefore := atZoneStart_le hvol.layout hstart
    rcases hk with hlt | hend
    · exact absurd (lt_of_lt_of_le hlt hbefore) (not_lt.mpr hlo)
    · exact absurd hhi (not_lt.mpr hend)

/-- What a call leaves: the same zones, again well marked. -/
structure KeepsMarks (vol v : AllocVolume) : Prop where
  zones : SameZones vol v
  marked : WellMarked v

lemma MoreUsed.keepsMarks (h : MoreUsed vol v) (hvol : WellMarked vol)
    (hfull : ∀ z, v.fullZones.has z = true → ZoneUsed vol z) : KeepsMarks vol v where
  zones := h.zones
  marked := ⟨h.layout hvol.layout, fun z hz => h.zoneUsed (hfull z hz)⟩

/-- If all the zones are in use, then no cluster is free. -/
lemma freeSet_eq_empty (hused : ∀ z, ZoneUsed vol z) : freeSet vol = ∅ := by
  rw [freeSet, Finset.filter_eq_empty_iff]
  intro k hk hclear
  rw [Finset.mem_range] at hk
  obtain ⟨hlo, hhi⟩ := @AllocVolume.zoneOf_mem vol k (by omega)
  rw [hused _ k hlo hhi] at hclear
  cases hclear

/-- The search for one cluster finds one if there is one. -/
lemma clusterAlloc_one (hvol : WellMarked vol) :
    ∃ fuel v r, (∀ n ≥ fuel, clusterAlloc n ampleMemory vol startVcn 1 (-1) zone = some (v, r)) ∧
      KeepsMarks vol v ∧ (1 ≤ (freeSet vol).card → ∃ rl, r = .ok rl) := by
  obtain ⟨fuel, r, hrun, hexit⟩ := (allocInitial_scan hvol).ends hvol.layout
    (fun _ => rfl : ∀ n, ampleMemory.realloc n = true)
  have hcall : ∀ n ≥ fuel, clusterAlloc n ampleMemory vol startVcn 1 (-1) zone =
      finishAlloc n ampleMemory r := by
    intro n hn
    rw [clusterAlloc, if_neg (by decide), if_neg (by decide), if_pos (by rfl),
      Loop.run_mono hn hrun]
  cases r with
  | done v rl =>
    exact ⟨fuel, v, .ok (terminate rl), hcall, hexit.1.keepsMarks hvol hexit.2, fun _ => ⟨_, rfl⟩⟩
  | failed v rl e =>
    obtain ⟨rfl, rfl, hv, hused⟩ := hexit
    refine ⟨fuel, v, _, hcall, ?_, fun hfree => ?_⟩
    · rw [hv]
      exact (MoreUsed.setFull _).keepsMarks hvol fun z _ => hused z
    · rw [freeSet_eq_empty hused] at hfree
      cases hfree

/-- The window at the position of a zone, which is not marked full, has as many adjacent clear
bits as clusters are asked for. -/
structure FirstWindowFits (vol : AllocVolume) (count : Int) (zone : AllocationZone) : Prop where
  notFull : vol.fullZones.has (vol.zoneOf (vol.zonePos zone.first)) = false
  fits : WindowFits vol.lcnbmp (vol.zonePos zone.first) count.toNat

lemma searchZone_eq_zoneOf (hle : vol.mftZoneStart ≤ vol.mftZoneEnd) (pos : Int) :
    (if pos < vol.mftZoneStart then Zone.data2
      else if pos < vol.mftZoneEnd then Zone.mft else Zone.data1) = vol.zoneOf pos := by
  rw [AllocVolume.zoneOf]
  split_ifs <;> first | rfl | omega

lemma clusterAlloc_firstWindow (hvol : WellMarked vol) (startVcn : Int) (hcount : 0 < count)
    (hfits : FirstWindowFits vol count zone) :
    ∃ v rl, (∀ n ≥ 1, clusterAlloc n ampleMemory vol startVcn count (-1) zone =
      some (v, .ok rl)) ∧ KeepsMarks vol v := by
  have hsearch : (allocInitial vol count (-1) zone).searchZone =
      vol.zoneOf (vol.zonePos zone.first) := by
    have hle := le_trans hvol.layout.start_le_lcn hvol.layout.lcn_le_end
    rw [← allocInitial_zoneStart vol count zone]
    exact searchZone_eq_zoneOf hle _
  have hclusters : (allocInitial vol count (-1) zone).clusters = ((count - 1).toNat : Int) + 1 := by
    change count = _
    omega
  have hcount' : count.toNat = (count - 1).toNat + 1 := by omega
  have hwindow : WindowFits vol.lcnbmp (allocInitial vol count (-1) zone).bmpPos
      ((count - 1).toNat + 1) := by
    rw [← hcount']
    change WindowFits vol.lcnbmp (allocInitial vol count (-1) zone).zoneStart _
    rw [allocInitial_zoneStart]
    exact hfits.fits
  obtain ⟨v, rl, hstep, hmore, hfull⟩ := windowStep_fits
    (fun _ => rfl : ∀ n, ampleMemory.realloc n = true) startVcn
    (by rw [hsearch]; exact hfits.notFull)
    (allocInitial_nonneg hvol.layout count zone) rfl hclusters hwindow
  refine ⟨v, terminate rl, fun n hn => ?_, hmore.keepsMarks hvol fun z hz => ?_⟩
  · have hexit : allocStep ampleMemory.realloc startVcn (allocInitial vol count (-1) zone) =
        .inr (.done v rl) := hstep
    obtain ⟨m, rfl⟩ := Nat.exists_eq_add_of_le' hn
    rw [clusterAlloc, if_neg (by omega), if_neg (by omega), Loop.run_inr m hexit]
    rfl
  · rw [hfull] at hz
    exact hvol.truthful z hz

/-! ## Freeing -/

/-- A run inside a zone, below the positions of an `int`. -/
structure RunInZone (vol : AllocVolume) (lcn length : Int) : Prop where
  length_pos : 0 < length
  lcn_nonneg : 0 ≤ lcn
  in_zone : lcn + length ≤ vol.zoneEnd (vol.zoneOf lcn)
  in_range : lcn + length ≤ 2 ^ 34 - 8

lemma SameZones.zoneOf (h : SameZones vol v) (lcn : Int) : v.zoneOf lcn = vol.zoneOf lcn := by
  rw [AllocVolume.zoneOf, AllocVolume.zoneOf, h.mftZoneEnd, h.mftZoneStart]

lemma RunInZone.of_sameZones (h : SameZones vol v) (hrun : RunInZone vol lcn length) :
    RunInZone v lcn length :=
  { hrun with in_zone := by rw [h.zoneOf, h.zoneEnd]; exact hrun.in_zone }

lemma ZoneLayout.zoneOf_eq (h : ZoneLayout vol) (hlo : vol.zoneStart z ≤ lcn)
    (hhi : lcn < vol.zoneEnd z) : vol.zoneOf lcn = z := by
  have hle := le_trans h.start_le_lcn h.lcn_le_end
  rw [AllocVolume.zoneOf]
  cases z with
  | mft =>
    rw [AllocVolume.zoneStart] at hlo
    rw [AllocVolume.zoneEnd] at hhi
    rw [if_neg (not_le.mpr hhi), if_neg (not_lt.mpr hlo)]
  | data1 =>
    rw [AllocVolume.zoneStart] at hlo
    rw [if_pos hlo]
  | data2 =>
    rw [AllocVolume.zoneEnd] at hhi
    rw [if_neg (not_le.mpr (lt_of_lt_of_le hhi hle)), if_pos hhi]

lemma AllocVolume.zoneStart_zoneOf (hlcn : 0 ≤ lcn) : vol.zoneStart (vol.zoneOf lcn) ≤ lcn := by
  rw [AllocVolume.zoneOf]
  split_ifs with hdata1 hdata2
  · exact hdata1
  · exact hlcn
  · exact not_lt.mp hdata2

lemma RunInZone.zoneOf_eq (h : ZoneLayout vol) (hrun : RunInZone vol lcn length)
    (hlo : lcn ≤ k) (hhi : k < lcn + length) : vol.zoneOf k = vol.zoneOf lcn :=
  h.zoneOf_eq (le_trans (AllocVolume.zoneStart_zoneOf hrun.lcn_nonneg) hlo)
    (lt_of_lt_of_le hhi hrun.in_zone)

lemma RunInZone.part (h : ZoneLayout vol) (hrun : RunInZone vol lcn length)
    (hdelta : 0 ≤ delta) (hcount : 0 < count) (hle : delta + count ≤ length) :
    RunInZone vol (lcn + delta) count where
  length_pos := hcount
  lcn_nonneg := Int.add_nonneg hrun.lcn_nonneg hdelta
  in_zone := by
    have hzone := hrun.in_zone
    rw [hrun.zoneOf_eq h (by omega : lcn ≤ lcn + delta) (by omega)]
    omega
  in_range := by
    have hrange := hrun.in_range
    omega

namespace KeepsMarks

lemma refl (h : WellMarked vol) : KeepsMarks vol vol := ⟨.refl vol, h⟩

lemma trans (h : KeepsMarks vol v) (h' : KeepsMarks v v') : KeepsMarks vol v' :=
  ⟨h.zones.trans h'.zones, h'.marked⟩

/-- The number of free clusters does not matter. -/
lemma setFree (h : KeepsMarks vol v) (freeClusters : Int) :
    KeepsMarks vol { v with freeClusters := freeClusters } where
  zones := h.zones.trans ⟨rfl, rfl, rfl, rfl⟩
  marked := ⟨h.marked.layout.of_pos ⟨rfl, rfl, rfl, rfl⟩ rfl h.marked.layout.pos, h.marked.truthful⟩

end KeepsMarks

lemma ZoneFlags.has_erase {flags : ZoneFlags} (h : (flags.erase z).has z' = true) :
    z' ≠ z ∧ flags.has z' = true := by
  cases z <;> cases z' <;> first | cases h | exact ⟨by decide, h⟩

/-- A run that is freed without harm: a hole, or clusters of one zone. -/
def GentleRun (vol : AllocVolume) (e : RunlistElement) : Prop :=
  e.length = 0 ∨ e.lcn < 0 ∨ RunInZone vol e.lcn e.length

lemma GentleRun.of_sameZones (h : SameZones vol v) (he : GentleRun vol e) : GentleRun v e :=
  he.imp_right fun he => he.imp_right (.of_sameZones h)

lemma GentleRun.inZone (he : GentleRun vol e) (hlength : e.length ≠ 0) (hlcn : ¬ e.lcn < 0) :
    RunInZone vol e.lcn e.length :=
  (he.resolve_left hlength).resolve_left hlcn

/-- The loop of `ntfs_cluster_free_from_rl` clears a run as the other functions do. -/
lemma freeRuns_clear (hlength : e.length ≠ 0) (hlcn : 0 ≤ e.lcn)
    (hclear : clearClusters fuel hasMemory vol e.lcn e.length = some (v, .ok ())) :
    freeRuns fuel hasMemory (e :: rest) vol nrFreed =
      freeRuns fuel hasMemory rest v (nrFreed + e.length) := by
  rw [clearClusters] at hclear
  rw [freeRuns, if_neg hlength, if_pos hlcn]
  rcases hbits : bitmapClearRun fuel (hasMemory e.lcn) (vol.updateFullStatus e.lcn).lcnbmp e.lcn
    e.length with _ | ⟨na, r⟩
  · rw [hbits] at hclear
    cases hclear
  · rw [hbits] at hclear
    obtain ⟨rfl, rfl⟩ := Prod.mk.inj (Option.some.inj hclear)
    dsimp only
    rw [hbits]

/-- The number of clusters to free of a run. -/
lemma toFree_bounds (hlength : 0 < length) (hcount : count ≠ 0) :
    0 < toFree length count ∧ toFree length count ≤ length := by
  rw [toFree]
  split_ifs with h
  · exact ⟨by omega, le_of_lt h.2⟩
  · exact ⟨hlength, le_refl _⟩

/-- Nothing is freed if the cluster is not found. -/
lemma clusterFree_error (fuel : Nat) (hasMemory : Int → Bool) (vol : AllocVolume) (e : Errno) :
    (clusterFree fuel hasMemory vol (.error e) startVcn count).map Prod.fst = some vol := by
  unfold clusterFree
  by_cases hargs : startVcn < 0 ∨ (count < 0 ∧ count ≠ -1)
  · rw [if_pos hargs]
    rfl
  · rw [if_neg hargs]
    cases e <;> rfl

section

variable (hvol : WellMarked vol)
include hvol

/-- `update_full_status` removes the mark of the zone, and keeps the others. -/
lemma updateFullStatus_marks :
    KeepsMarks vol (vol.updateFullStatus lcn) ∧
      (vol.updateFullStatus lcn).fullZones.has (vol.zoneOf lcn) = false := by
  rw [AllocVolume.updateFullStatus]
  by_cases hmarked : vol.fullZones.has (vol.zoneOf lcn) = true
  · rw [if_pos hmarked]
    have hmoved := hvol.layout.updateZonePos (vol.zoneOf lcn) lcn
    have hsame := SameZones.updateZonePos vol (vol.zoneOf lcn) lcn
    refine ⟨⟨hsame.trans ⟨rfl, rfl, rfl, rfl⟩, hmoved.of_pos ⟨rfl, rfl, rfl, rfl⟩ rfl hmoved.pos,
      fun z hz => ?_⟩, ?_⟩
    · intro k hlo hhi
      have hused := hvol.truthful z (has_erase hz).2 k
        (by rw [← hsame.zoneStart]; exact hlo) (by rw [← hsame.zoneEnd]; exact hhi)
      rw [AllocVolume.updateZonePos_lcnbmp]
      exact hused
    · by_contra hnot
      exact (has_erase (Bool.eq_true_of_not_eq_false hnot)).1 rfl
  · rw [if_neg hmarked]
    exact ⟨.refl hvol, Bool.eq_false_of_not_eq_true hmarked⟩

/-- Clearing a run of a zone whose mark is removed keeps the other marks right. -/
lemma clearClusters_keeps (hrun : RunInZone vol lcn count) :
    ∃ fuel v, (∀ n ≥ fuel, clearClusters n ampleMemory.clearRun vol lcn count =
      some (v, .ok ())) ∧ KeepsMarks vol v := by
  obtain ⟨hkeeps, hmark⟩ := updateFullStatus_marks hvol
  have hlayout := hkeeps.marked.layout
  have hrun' := hrun.of_sameZones hkeeps.zones
  rw [← hkeeps.zones.zoneOf] at hmark
  have hclearable : Clearable (vol.updateFullStatus lcn).lcnbmp.size
      { vcn := 0, lcn := lcn, length := count } :=
    ⟨hrun.length_pos, hrun.lcn_nonneg,
      le_trans hrun'.in_zone (le_trans (hlayout.zoneEnd_le _) hlayout.covered)⟩
  have hrange := hrun.in_range
  have hlcn := hrun.lcn_nonneg
  have hlength := hrun.length_pos
  obtain ⟨fuel, na, hclear, hsize, hbits⟩ :=
    bitmapClearRun_spec hclearable (setRunFits_of_le (by dsimp only; omega))
  refine ⟨fuel, { vol.updateFullStatus lcn with lcnbmp := na }, fun n hn => ?_, ?_⟩
  · rw [clearClusters]
    rw [show ampleMemory.clearRun lcn = true from rfl, hclear n hn]
  · refine hkeeps.trans ⟨⟨rfl, rfl, rfl, rfl⟩, hlayout.of_pos ⟨rfl, rfl, rfl,
      rfl⟩ hsize hlayout.pos,
      fun z hz k hlo hhi => ?_⟩
    have hother : k ∉ runLcns { vcn := 0, lcn := lcn, length := count } := by
      intro hmem
      rw [mem_runLcns] at hmem
      dsimp only at hmem
      have hnonneg := hrun.lcn_nonneg
      have hzone := hrun'.zoneOf_eq hlayout (by omega : lcn ≤ k) (by omega)
      rw [hlayout.zoneOf_eq hlo hhi] at hzone
      rw [hzone] at hz
      exact absurd (hmark.symm.trans hz) (by decide)
    rw [hbits k, hkeeps.marked.truthful z hz k hlo hhi, decide_eq_true hother]
    rfl

lemma freeRuns_keeps (hrl : ∀ e ∈ rl, GentleRun vol e) (nrFreed : Int) :
    ∃ fuel v r, (∀ n ≥ fuel, freeRuns n ampleMemory.clearRun rl vol nrFreed = some (v, r)) ∧
      KeepsMarks vol v := by
  induction rl generalizing vol nrFreed with
  | nil => exact ⟨0, vol, _, fun _ _ => rfl, .refl hvol⟩
  | cons e rest ih =>
    obtain ⟨he, hrest⟩ := forall_mem_cons.mp hrl
    by_cases hzero : e.length = 0
    · exact ⟨0, vol, _, fun n _ => by rw [freeRuns, if_pos hzero], .refl hvol⟩
    by_cases hlcn : 0 ≤ e.lcn
    · have hrun := he.inZone hzero (not_lt.mpr hlcn)
      obtain ⟨fuel, v, hclear, hkeeps⟩ := clearClusters_keeps hvol hrun
      obtain ⟨fuel', v', r, hfree, hkeeps'⟩ := ih hkeeps.marked
        (fun e' he' => (hrest e' he').of_sameZones hkeeps.zones) (nrFreed + e.length)
      refine ⟨max fuel fuel', v', r, fun n hn => ?_, hkeeps.trans hkeeps'⟩
      rw [freeRuns_clear hzero hlcn (hclear n (by omega)), hfree n (by omega)]
    · obtain ⟨fuel, v, r, hfree, hkeeps⟩ := ih hvol hrest nrFreed
      exact ⟨fuel, v, r, fun n hn => by rw [freeRuns, if_neg hzero, if_neg hlcn, hfree n hn],
        hkeeps⟩

lemma freeRest_keeps (hrl : ∀ e ∈ rl, GentleRun vol e) (nrFreed count : Int) :
    ∃ fuel v r, (∀ n ≥ fuel, freeRest n ampleMemory.clearRun rl vol nrFreed count = some (v, r)) ∧
      KeepsMarks vol v := by
  induction rl generalizing vol nrFreed count with
  | nil => exact ⟨0, vol, _, fun _ _ => rfl, .refl hvol⟩
  | cons e rest ih =>
    obtain ⟨he, hrest⟩ := forall_mem_cons.mp hrl
    by_cases hstop : e.length = 0 ∨ count = 0
    · exact ⟨0, vol, _, fun n _ => by rw [freeRest, if_pos hstop], .refl hvol⟩
    by_cases hbad : e.lcn < 0 ∧ e.lcn ≠ lcnHole
    · exact ⟨0, vol, _, fun n _ => by rw [freeRest, if_neg hstop, if_pos hbad], .refl hvol⟩
    by_cases hhole : e.lcn = lcnHole
    · obtain ⟨fuel, v, r, hfree, hkeeps⟩ := ih hvol hrest nrFreed (leftToFree e.length count)
      refine ⟨fuel, v, r, fun n hn => ?_, hkeeps⟩
      rw [freeRest, if_neg hstop, if_neg hbad, if_pos hhole, hfree n hn]
    · rw [not_or] at hstop
      have hrun := he.inZone hstop.1 fun hneg => hbad ⟨hneg, hhole⟩
      obtain ⟨hpos, hle⟩ := toFree_bounds hrun.length_pos hstop.2
      have hpart := hrun.part hvol.layout (le_refl 0) hpos (by omega)
      rw [add_zero] at hpart
      obtain ⟨fuel, v, hclear, hkeeps⟩ := clearClusters_keeps hvol hpart
      obtain ⟨fuel', v', r, hfree, hkeeps'⟩ := ih hkeeps.marked
        (fun e' he' => (hrest e' he').of_sameZones hkeeps.zones)
        (nrFreed + toFree e.length count) (leftToFree e.length count)
      refine ⟨max fuel fuel', v', r, fun n hn => ?_, hkeeps.trans hkeeps'⟩
      rw [freeRest, if_neg (not_or.mpr hstop), if_neg hbad, if_neg hhole, hclear n (by omega)]
      exact hfree n (by omega)

lemma clusterFreeBasic_keeps (hrun : lcn < 0 ∨ RunInZone vol lcn count) :
    ∃ fuel v r, (∀ n ≥ fuel, clusterFreeBasic n ampleMemory.clearRun vol lcn count =
      some (v, r)) ∧ KeepsMarks vol v := by
  rcases hrun with hneg | hrun
  · exact ⟨0, vol, _, fun n _ => by rw [clusterFreeBasic, if_neg (not_le.mpr hneg)], .refl hvol⟩
  · obtain ⟨fuel, v, hclear, hkeeps⟩ := clearClusters_keeps hvol hrun
    refine ⟨fuel, { v with freeClusters := v.freeClusters + count }, .ok (), fun n hn => ?_,
      hkeeps.setFree _⟩
    rw [clusterFreeBasic, if_pos hrun.lcn_nonneg, hclear n hn]

/-- The runs that `ntfs_cluster_free` is to free some clusters of: the first one holds
`startVcn`. -/
structure GentleRuns (vol : AllocVolume) (rl : List RunlistElement) (startVcn count : Int) :
    Prop where
  count_ne : count ≠ 0
  first : ∀ e ∈ rl.head?, e.vcn ≤ startVcn ∧ startVcn < e.vcn + e.length
  runs : ∀ e ∈ rl, GentleRun vol e

lemma clusterFree_runs (hrl : GentleRuns vol rl startVcn count) :
    ∃ fuel v r, (∀ n ≥ fuel, clusterFree n ampleMemory.clearRun vol (.ok rl) startVcn count =
      some (v, r)) ∧ KeepsMarks vol v := by
  by_cases hargs : startVcn < 0 ∨ (count < 0 ∧ count ≠ -1)
  · exact ⟨0, vol, .error (.errno .einval), fun n _ => if_pos hargs, .refl hvol⟩
  cases rl with
  | nil => exact ⟨0, vol, .error .outOfBounds, fun n _ => if_neg hargs, .refl hvol⟩
  | cons e rest =>
    obtain ⟨he, hrest⟩ := forall_mem_cons.mp hrl.runs
    obtain ⟨hvcn, hinside⟩ := hrl.first e rfl
    by_cases hbad : e.lcn < 0 ∧ e.lcn ≠ lcnHole
    · refine ⟨0, vol, .error (.errno .eio), fun n _ => ?_, .refl hvol⟩
      rw [clusterFree, if_neg hargs]
      rw [if_pos hbad]
    by_cases hhole : e.lcn = lcnHole
    · obtain ⟨fuel, v, ⟨nrFreed, r⟩, hfree, hkeeps⟩ :=
        freeRest_keeps hvol hrest 0 (leftToFree (e.length - (startVcn - e.vcn)) count)
      refine ⟨fuel, _, r.map fun _ => s32 nrFreed, fun n hn => ?_,
        hkeeps.setFree (v.freeClusters + nrFreed)⟩
      rw [clusterFree, if_neg hargs]
      rw [if_neg hbad, if_pos hhole, hfree n hn, finishFree]
    · have hrun := he.inZone (by omega) fun hneg => hbad ⟨hneg, hhole⟩
      obtain ⟨hpos, hle⟩ := toFree_bounds (by omega : 0 < e.length - (startVcn - e.vcn))
        hrl.count_ne
      obtain ⟨fuel, v, hclear, hkeeps⟩ := clearClusters_keeps hvol
        (hrun.part hvol.layout (by omega : 0 ≤ startVcn - e.vcn) hpos (by omega))
      obtain ⟨fuel', v', ⟨nrFreed, r⟩, hfree, hkeeps'⟩ := freeRest_keeps hkeeps.marked
        (fun e' he' => (hrest e' he').of_sameZones hkeeps.zones)
        (toFree (e.length - (startVcn - e.vcn)) count)
        (leftToFree (e.length - (startVcn - e.vcn)) count)
      refine ⟨max fuel fuel', _, r.map fun _ => s32 nrFreed, fun n hn => ?_,
        hkeeps.trans (hkeeps'.setFree (v'.freeClusters + nrFreed))⟩
      rw [clusterFree, if_neg hargs]
      rw [if_neg hbad, if_neg hhole, hclear n (by omega)]
      dsimp only
      rw [hfree n (by omega), finishFree]

/-! ## Histories of gentle calls -/

/-- A call that keeps the marks right. Clusters are asked for without a hint, either one or
as many as the first window has adjacent ones, and every run that is freed lies in one zone. -/
def ClusterCall.Gentle (vol : AllocVolume) : ClusterCall → Prop
  | .alloc _ count startLcn zone => startLcn < 0 ∧ (count ≤ 1 ∨ FirstWindowFits vol count zone)
  | .freeFromRl rl => ∀ e ∈ rl, GentleRun vol e
  | .freeBasic lcn count => lcn < 0 ∨ RunInZone vol lcn count
  | .free (.error _) _ _ => True
  | .free (.ok rl) startVcn count => GentleRuns vol rl startVcn count

lemma clusterAlloc_keeps (hlcn : startLcn < 0)
    (hgentle : count ≤ 1 ∨ FirstWindowFits vol count zone) :
    ∃ fuel v r, (∀ n ≥ fuel, clusterAlloc n ampleMemory vol startVcn count startLcn zone =
      some (v, r)) ∧ KeepsMarks vol v ∧
      (0 ≤ count → startLcn = -1 → count ≤ (freeSet vol).card → ∃ rl, r = .ok rl) := by
  by_cases hargs : count < 0 ∨ startLcn < -1
  · exact ⟨0, vol, _, fun n _ => by rw [clusterAlloc, if_pos hargs], .refl hvol,
      fun _ _ _ => by omega⟩
  obtain rfl : startLcn = -1 := by omega
  by_cases hzero : count = 0
  · refine ⟨0, vol, .ok [{ vcn := startVcn, lcn := lcnRlNotMapped, length := 0 }], fun n _ => ?_,
      .refl hvol, fun _ _ _ => ⟨_, rfl⟩⟩
    rw [clusterAlloc, if_neg hargs, if_pos hzero]
    rfl
  rcases hgentle with hone | hfits
  · obtain rfl : count = 1 := by omega
    obtain ⟨fuel, v, r, hcall, hkeeps, hok⟩ := clusterAlloc_one hvol
    exact ⟨fuel, v, r, hcall, hkeeps, fun _ _ hfree => hok (by omega)⟩
  · obtain ⟨v, rl, hcall, hkeeps⟩ :=
      clusterAlloc_firstWindow hvol startVcn (by omega : 0 < count) hfits
    exact ⟨1, v, _, hcall, hkeeps, fun _ _ _ => ⟨rl, rfl⟩⟩

lemma ClusterCall.Gentle.keeps {c : ClusterCall} (hc : c.Gentle vol) :
    ∃ v, c.Ends vol v ∧ KeepsMarks vol v := by
  cases c with
  | alloc startVcn count startLcn zone =>
    obtain ⟨fuel, v, r, hcall, hkeeps, _⟩ := clusterAlloc_keeps hvol hc.1 hc.2
    exact ⟨v, ⟨fuel, fun n hn => by rw [run, hcall n hn]; rfl⟩, hkeeps⟩
  | freeFromRl rl =>
    obtain ⟨fuel, v, ⟨nrFreed, r⟩, hcall, hkeeps⟩ := freeRuns_keeps hvol hc 0
    refine ⟨_, ⟨fuel, fun n hn => ?_⟩, hkeeps.setFree (v.freeClusters + nrFreed)⟩
    rw [run, clusterFreeFromRl, hcall n hn]
    rfl
  | freeBasic lcn count =>
    obtain ⟨fuel, v, r, hcall, hkeeps⟩ := clusterFreeBasic_keeps hvol hc
    exact ⟨v, ⟨fuel, fun n hn => by rw [run, hcall n hn]; rfl⟩, hkeeps⟩
  | free found startVcn count =>
    cases found with
    | error e =>
      refine ⟨vol, ⟨0, fun n _ => ?_⟩, .refl hvol⟩
      rw [run, clusterFree_error]
    | ok rl =>
      obtain ⟨fuel, v, r, hcall, hkeeps⟩ := clusterFree_runs hvol hc
      exact ⟨v, ⟨fuel, fun n hn => by rw [run, hcall n hn]; rfl⟩, hkeeps⟩

/-- The marks stay right in a history of gentle calls. -/
lemma ReachedBy.wellMarked (h : ReachedBy (fun vol c => c.Gentle vol) vol v) : WellMarked v := by
  induction h with
  | refl => exact hvol
  | tail _ hcall ih =>
    obtain ⟨c, hgentle, hends⟩ := hcall
    obtain ⟨v', hends', hkeeps⟩ := hgentle.keeps ih
    rw [hends.unique hends']
    exact hkeeps.marked

end

/-- After gentle calls, only zones without a free cluster are marked full, and a gentle call
for no more clusters than are free succeeds. -/
theorem clusterAlloc_succeeds_of_gentle (lcnbmp : AttrData)
    (nrClusters freeClusters mftLcn : Int) (clusterSize : Nat) (hnonneg : 0 ≤ mftLcn)
    (hlcn : mftLcn < nrClusters) (hcovered : nrClusters ≤ 8 * lcnbmp.size) (vol : AllocVolume)
    (hvol : vol = mountZones lcnbmp nrClusters freeClusters mftLcn clusterSize)
    (hzone : vol.mftZoneStart < vol.mftZoneEnd → vol.mftLcn < vol.mftZoneEnd) (v : AllocVolume)
    (hreached : ReachedBy (fun vol c => c.Gentle vol) vol v) :
    Truthful v ∧ ∀ (startVcn count : Int) (zone : AllocationZone), 0 ≤ count →
      (count ≤ 1 ∨ FirstWindowFits v count zone) → count ≤ (freeSet v).card →
      ∃ fuel v' rl, ∀ n ≥ fuel,
        clusterAlloc n ampleMemory v startVcn count (-1) zone = some (v', .ok rl) := by
  have hmarked := hreached.wellMarked (mountZones_wellMarked hnonneg hlcn hcovered hvol hzone)
  refine ⟨hmarked.truthful, fun startVcn count zone hcount hgentle hfree => ?_⟩
  obtain ⟨fuel, v', r, hcall, _, hok⟩ :=
    clusterAlloc_keeps hmarked (by decide : (-1 : Int) < 0) hgentle
  obtain ⟨rl, rfl⟩ := hok hcount rfl hfree
  exact ⟨fuel, v', rl, hcall⟩

/-! ## A volume in use -/

section

variable {n m : Nat} {count : Int} (hle : n ≤ m)
include hle

lemma clusterAlloc_ok_mono
    (h : clusterAlloc n memory vol startVcn count startLcn zone = some (v, .ok rl)) :
    clusterAlloc m memory vol startVcn count startLcn zone = some (v, .ok rl) := by
  rw [clusterAlloc] at h ⊢
  by_cases hargs : count < 0 ∨ startLcn < -1
  · rwa [if_pos hargs] at h ⊢
  rw [if_neg hargs] at h ⊢
  by_cases hzero : count = 0
  · rwa [if_pos hzero] at h ⊢
  rw [if_neg hzero] at h ⊢
  split at h
  next hwindow =>
    rw [if_pos hwindow]
    cases hrun : Loop.run (allocStep memory.realloc startVcn) n
        (allocInitial vol count startLcn zone) with
    | none =>
      rw [hrun] at h
      cases h
    | some exit =>
      rw [hrun] at h
      rw [Loop.run_mono hle hrun]
      cases exit with
      | done v' rl' => exact h
      | failed v' rl' e =>
        cases rl' with
        | nil => cases h
        | cons e' rest =>
          simp only [finishAlloc] at h
          split at h <;> cases h
  · cases h

lemma clusterFreeBasic_mono (h : clusterFreeBasic n hasMemory vol lcn count = some r) :
    clusterFreeBasic m hasMemory vol lcn count = some r := by
  rw [clusterFreeBasic, clearClusters] at h ⊢
  split_ifs at h ⊢
  · cases hclear : bitmapClearRun n (hasMemory lcn) (vol.updateFullStatus lcn).lcnbmp lcn count with
    | none =>
      rw [hclear] at h
      cases h
    | some cleared =>
      rw [hclear] at h
      have hmore : bitmapClearRun m (hasMemory lcn) (vol.updateFullStatus lcn).lcnbmp lcn count =
          some cleared := bitmapSetBitsInRun_mono hle hclear
      rw [hmore]
      exact h
  · exact h

end

/-- A volume of 24 clusters with the free clusters 5, 6 and 7, which are its mft zone. -/
def fullDataVolume : AllocVolume :=
  mountZones { size := 3, byte := fun k => if k = 0 then 0x1f else 0xff } 24 3 5 4096

/-- The volume after cluster 5 was taken for data. -/
def usedVolume : AllocVolume :=
  ((ClusterCall.alloc 0 1 (-1) .data).run 30 fullDataVolume).getD fullDataVolume

/-- The volume after cluster 5 was freed again. -/
def freedVolume : AllocVolume := ((ClusterCall.freeBasic 5 1).run 30 usedVolume).getD usedVolume

lemma usedVolume_ends : (ClusterCall.alloc 0 1 (-1) .data).Ends fullDataVolume usedVolume := by
  have hok : (clusterAlloc 30 ampleMemory fullDataVolume 0 1 (-1) .data).map
      (fun p => p.2.toOption.isSome) = some true := by decide +kernel
  obtain ⟨⟨v, r⟩, hcall, hr⟩ := Option.map_eq_some_iff.mp hok
  cases r with
  | error e => cases hr
  | ok rl =>
    have hused : usedVolume = v := by
      rw [usedVolume, ClusterCall.run, hcall]
      rfl
    refine ⟨30, fun n hn => ?_⟩
    rw [ClusterCall.run, clusterAlloc_ok_mono hn hcall, hused, Option.map_some]

lemma freedVolume_ends : (ClusterCall.freeBasic 5 1).Ends usedVolume freedVolume := by
  have hsome : (clusterFreeBasic 30 ampleMemory.clearRun usedVolume 5 1).isSome = true := by
    decide +kernel
  obtain ⟨r, hcall⟩ := Option.isSome_iff_exists.mp hsome
  have hfreed : freedVolume = r.1 := by
    rw [freedVolume, ClusterCall.run, hcall]
    rfl
  refine ⟨30, fun n hn => ?_⟩
  rw [ClusterCall.run, clusterFreeBasic_mono hn hcall, hfreed, Option.map_some]

/-- The data zone is marked full, and the clusters of the mft zone are found. -/
theorem freedVolume_three :
    ReachedBy (fun vol c => c.Gentle vol) fullDataVolume freedVolume ∧
    freedVolume.fullZones.data1 = true ∧ Truthful freedVolume ∧ ∃ fuel v rl, ∀ n ≥ fuel,
      clusterAlloc n ampleMemory freedVolume 0 3 (-1) .mft = some (v, .ok rl) := by
  have hreached : ReachedBy (fun vol c => c.Gentle vol) fullDataVolume freedVolume := by
    have halloc : (ClusterCall.alloc 0 1 (-1) .data).Gentle fullDataVolume :=
      ⟨by decide, .inl (le_refl 1)⟩
    have hfree : (ClusterCall.freeBasic 5 1).Gentle usedVolume :=
      .inr ⟨by decide, by decide, by decide +kernel, by decide⟩
    exact .tail (.single ⟨_, halloc, usedVolume_ends⟩) ⟨_, hfree, freedVolume_ends⟩
  have hwindow : FirstWindowFits freedVolume 3 .mft := by
    refine ⟨by decide +kernel, 5, by decide +kernel, by decide +kernel, fun k hlo hhi => ?_⟩
    have hbits : ∀ k < 8, 5 ≤ k → freedVolume.lcnbmp.bit k = false := by decide +kernel
    exact hbits k hhi hlo
  obtain ⟨htruthful, hcall⟩ := clusterAlloc_succeeds_of_gentle
    { size := 3, byte := fun k => if k = 0 then 0x1f else 0xff } 24 3 5 4096 (by decide) (by decide)
    (by decide) fullDataVolume rfl (by decide +kernel) freedVolume hreached
  exact ⟨hreached, by decide +kernel, htruthful,
    hcall 0 3 .mft (by decide) (.inr hwindow) (by decide +kernel)⟩

/-! ## A fragmented volume -/

/-- A volume of sixteen clusters with the free clusters 8, 10, 12 and 14. -/
def fragmentedVolume : AllocVolume :=
  mountZones { size := 2, byte := fun k => if k = 0 then 0xff else 0xaa } 16 4 5 4096

/-- Four clusters are free, but a call for four fails. A call for two marks the last zone as
full, with two of its clusters free. -/
theorem fragmentedVolume_enospc :
    (freeSet fragmentedVolume).card = 4 ∧
    (∃ v, clusterAlloc 30 ampleMemory fragmentedVolume 0 4 (-1) .data =
      some (v, .error (.errno .enospc))) ∧
    ∃ v rl, clusterAlloc 30 ampleMemory fragmentedVolume 0 2 (-1) .data = some (v, .ok rl) ∧
      ¬ Truthful v := by
  have hfour : (clusterAlloc 30 ampleMemory fragmentedVolume 0 4 (-1) .data).map Prod.snd =
      some (.error (.errno .enospc)) := by decide +kernel
  have htwo : (clusterAlloc 30 ampleMemory fragmentedVolume 0 2 (-1) .data).map
      (fun p => (p.1.fullZones.data1, p.1.mftZoneEnd, p.1.nrClusters, p.1.lcnbmp.bit 14,
        p.2.toOption.isSome)) = some (true, 7, 16, false, true) := by decide +kernel
  refine ⟨by decide +kernel, ?_, ?_⟩
  · obtain ⟨⟨v, r⟩, hcall, rfl⟩ := Option.map_eq_some_iff.mp hfour
    exact ⟨v, hcall⟩
  · obtain ⟨⟨v, r⟩, hcall, hv⟩ := Option.map_eq_some_iff.mp htwo
    obtain ⟨hfull, hend, hnr, hbit, hok⟩ : v.fullZones.data1 = true ∧ v.mftZoneEnd = 7 ∧
        v.nrClusters = 16 ∧ v.lcnbmp.bit 14 = false ∧ r.toOption.isSome = true := by simpa using hv
    cases r with
    | error e => cases hok
    | ok rl =>
      refine ⟨v, rl, hcall, fun htruthful => ?_⟩
      have hlo : v.zoneStart .data1 ≤ (14 : Nat) := by
        rw [AllocVolume.zoneStart, hend]
        decide
      have hhi : ((14 : Nat) : Int) < v.zoneEnd .data1 := by
        rw [AllocVolume.zoneEnd, hnr]
        decide
      have hused := htruthful .data1 hfull 14 hlo hhi
      rw [hbit] at hused
      cases hused

end NtfsDxe
