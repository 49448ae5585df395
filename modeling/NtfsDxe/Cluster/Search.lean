import NtfsDxe.Cluster.Window
import Mathlib.Data.Prod.Lex

/-! # Searching the zones of a volume

The search keeps the account of the clusters taken, and it ends: a zone is left
after two passes, each pass goes through the bitmap once, and only the second
data zone can be visited again, once the first one is done.
-/

namespace NtfsDxe

open Foundation Bits List AllocState AttrData

section

variable {vol : AllocVolume} {startVcn count : Int}

/-! ## Writing a window back -/

variable {s before : AllocState} {size : Nat}

lemma InWindow.writeback (hs : InWindow vol startVcn count pos s w) :
    ∃ v, bitmapWriteback s.vol pos w = .ok v ∧ Taken vol startVcn count { s with vol := v } ∧
      Stored vol { s with vol := v } := by
  unfold bitmapWriteback
  cases hback : w.writeback with
  | false => exact ⟨s.vol, rfl, hs.toTaken, hs.unchanged hback⟩
  | true =>
    have hfits := hs.fits
    obtain ⟨na, hwrite, hsize, hbyte⟩ := s.vol.lcnbmp.pwrite_ok (Int.natCast_nonneg pos)
      (by rw [hs.size_eq]; exact hfits :
        (pos : Int).toNat + w.buf.length ≤ s.vol.lcnbmp.size)
    rw [hwrite]
    refine ⟨{ s.vol with lcnbmp := na }, rfl, { hs.toTaken with size_eq := ?_ }, fun k => ?_⟩
    · exact hsize.trans hs.size_eq
    · rw [bit, hbyte, Int.toNat_natCast]
      by_cases hin : pos ≤ k / 8 ∧ k / 8 < pos + w.buf.length
      · have hk : 8 * (pos + (k / 8 - pos)) + k % 8 = k := by omega
        rw [if_pos hin, hs.inside _ (by omega) _ (by omega), hk]
      · rw [if_neg hin]
        exact hs.outside k (by omega)

/-! ## What the search yields -/

/-- A volume on which the runs have been taken from `vol`. -/
structure Account (vol : AllocVolume) (startVcn : Int) (v : AllocVolume)
    (rl : List RunlistElement) :
    Prop where
  runs : RunsFrom startVcn rl
  nodup : (lcnsOf rl).Nodup
  fresh : ∀ k ∈ lcnsOf rl, k ∈ freeSet vol
  free_eq : v.freeClusters = vol.freeClusters - (lcnsOf rl).length
  size_eq : v.lcnbmp.size = vol.lcnbmp.size
  bits : ∀ k, v.lcnbmp.bit k = usedBit vol rl k

lemma Taken.account (hs : Taken vol startVcn count s) (hstored : Stored vol s) :
    Account vol startVcn s.vol s.rl :=
  ⟨hs.runs, hs.nodup, hs.fresh, hs.free_eq, hs.size_eq, hstored⟩

def ExitAccount (vol : AllocVolume) (startVcn count : Int) : AllocExit → Prop
  | .done v rl => Account vol startVcn v rl ∧ ((lcnsOf rl).length : Int) = count
  | .failed v rl e => Account vol startVcn v rl ∧ ∃ code, e = .errno code

def ZonesInOrder (search : Zone) (done : ZoneFlags) : Prop :=
  match search with
  | .mft => done.mft = false ∧ (done.data1 = true → done.data2 = true)
  | .data1 => done.data1 = false
  | .data2 => done.data2 = true → done.data1 = true

structure Searching (vol : AllocVolume) (startVcn count : Int) (s : AllocState) : Prop
    extends Taken vol startVcn count s where
  stored : Stored vol s
  unfinished : 0 < s.clusters
  zones : ZonesInOrder s.searchZone s.doneZones

/-! ## The measure of the search -/

def zoneRank (search : Zone) (done : ZoneFlags) : Nat :=
  2 * ((!done.mft).toNat + (!done.data1).toNat + (!done.data2).toNat) + (done.has search).toNat

/-- How much of a zone is still to be searched: the passes, and the hint. -/
def passRank (s : AllocState) : Nat := (s.pass == 1).toNat + (!s.usedZonePos).toNat

def pointRank (size : Nat) (s : AllocState) : Nat :=
  match s.point with
  | .window => (8 * size - s.bmpPos).toNat + 2
  | .zonePassDone => 1
  | .doneZonesCheck => 0

/-- The measure of the search of a bitmap of `size` bytes. -/
def searchRank (size : Nat) (s : AllocState) : Nat ×ₗ Nat ×ₗ Nat :=
  toLex (zoneRank s.searchZone s.doneZones, toLex (passRank s, pointRank size s))

lemma searchRank_lt (hlt : zoneRank s'.searchZone s'.doneZones < zoneRank s.searchZone s.doneZones ∨
      zoneRank s'.searchZone s'.doneZones = zoneRank s.searchZone s.doneZones ∧
        (passRank s' < passRank s ∨
          passRank s' = passRank s ∧ pointRank size s' < pointRank size s)) :
    searchRank size s' < searchRank size s := by
  rw [searchRank, searchRank, Prod.Lex.toLex_lt_toLex, Prod.Lex.toLex_lt_toLex]
  exact hlt

/-! ## The steps of the search -/

lemma Searching.setVol (hs : Searching vol startVcn count s) (hbmp : v.lcnbmp = s.vol.lcnbmp)
    (hfree : v.freeClusters = s.vol.freeClusters) :
    Searching vol startVcn count { s with vol := v } :=
  { hs.toTaken.setVol hbmp hfree with
    stored := fun k => by rw [hbmp]; exact hs.stored k
    unfinished := hs.unfinished
    zones := hs.zones }

lemma passDone_rank (hpoint : s.point = .zonePassDone) :
    searchRank size s.passDone < searchRank size s := by
  unfold passDone
  split
  next hpass =>
    refine searchRank_lt (.inr ⟨rfl, .inl ?_⟩)
    simp [passRank, hpass]
  next hpass =>
    refine searchRank_lt (.inr ⟨rfl, .inr ⟨rfl, ?_⟩⟩)
    simp [pointRank, hpoint]

lemma passDone_searching (hs : Searching vol startVcn count s) :
    Searching vol startVcn count s.passDone := by
  unfold passDone
  split <;> exact { hs with }

/-- Giving up a pass brings the search closer to its end. -/
lemma zonePassDone_rank (hpoint : s.point = .window) :
    searchRank size { s with point := .zonePassDone } < searchRank size s := by
  refine searchRank_lt (.inr ⟨rfl, .inr ⟨rfl, ?_⟩⟩)
  simp only [pointRank, hpoint]
  omega

lemma nextZone_inOrder (hzones : ZonesInOrder search done)
    (hleft : (done.insert search).all = false) :
    ZonesInOrder (nextZone search (done.insert search)) (done.insert search) ∧
      zoneRank (nextZone search (done.insert search)) (done.insert search) <
        zoneRank search done := by
  obtain ⟨mft, data1, data2⟩ := done
  cases search <;> cases data1 <;> cases data2 <;>
    simp_all [ZonesInOrder, ZoneFlags.insert, ZoneFlags.all, nextZone, zoneRank, ZoneFlags.has]

lemma AllocState.switchZone_vol :
    s.switchZone.vol.lcnbmp = s.vol.lcnbmp ∧ s.switchZone.vol.freeClusters =
      s.vol.freeClusters := by
  unfold switchZone
  cases s.rl with
  | nil => exact ⟨rfl, rfl⟩
  | cons last rest =>
    dsimp only
    split
    · exact ⟨AllocVolume.updateZonePos_lcnbmp, AllocVolume.updateZonePos_freeClusters⟩
    · exact ⟨rfl, rfl⟩

section

variable (hs : Searching vol startVcn count s)
include hs

lemma Searching.switchZone (hzones : ZonesInOrder (nextZone s.searchZone done) done) :
    Searching vol startVcn count ({ s with doneZones := done } : AllocState).switchZone := by
  obtain ⟨hbmp, hfree⟩ := switchZone_vol
  exact
    { hs with
      free_eq := hfree.trans hs.free_eq
      size_eq := (congrArg size hbmp).trans hs.size_eq
      stored := fun k => (congrArg (bit · k) hbmp).trans (hs.stored k)
      zones := hzones }

lemma doneZonesStep_searching :
    (∃ s', doneZonesStep s = .inl s' ∧ Searching vol startVcn count s' ∧
      searchRank size s' < searchRank size s) ∨
    ∃ r, doneZonesStep s = .inr r ∧ ExitAccount vol startVcn count r := by
  have hfull : Searching vol startVcn count
      { s with vol := { s.vol with fullZones := s.vol.fullZones.insert s.searchZone } } :=
    hs.setVol rfl rfl
  unfold doneZonesStep
  dsimp only
  cases hall : (s.doneZones.insert s.searchZone).all with
  | true =>
    right
    exact ⟨_, rfl, hfull.account hfull.stored, .enospc, rfl⟩
  | false =>
    left
    obtain ⟨hzones, hrank⟩ := nextZone_inOrder hs.zones hall
    exact ⟨_, rfl, hfull.switchZone hzones, searchRank_lt (.inl hrank)⟩

lemma Searching.readWindow (hread : s.vol.lcnbmp.pread (s.bmpPos / 8) lcnallocBsize = .ok buf)
    (hne : buf ≠ []) :
    InWindow vol startVcn count (s.bmpPos / 8).toNat { s with bmpPos := s.bmpPos / 8 * 8 }
        { buf := buf, lcn := (s.bmpPos % 8).toNat, writeback := false } ∧
      0 ≤ s.bmpPos ∧ s.bmpPos < 8 * vol.lcnbmp.size := by
  unfold pread at hread
  split at hread
  · cases hread
  next hpos =>
    cases hread
    have hsize := hs.size_eq
    have hlen := length_pos_iff.mpr hne
    rw [length_map, length_range] at hlen
    refine ⟨{ hs with bmpPos_eq := by dsimp only; omega, fits := ?_, inside := ?_,
                      outside := fun k _ => hs.stored k, unchanged := fun _ => hs.stored },
      by omega, by omega⟩
    · rw [length_map, length_range]
      omega
    · intro j hj i hi
      rw [length_map, length_range] at hj
      have hbyte : (map (fun k => s.vol.lcnbmp.byte ((s.bmpPos / 8).toNat + k))
          (range (min lcnallocBsize.toNat
            (s.vol.lcnbmp.size - (s.bmpPos / 8).toNat)))).getD j 0 =
          s.vol.lcnbmp.byte ((s.bmpPos / 8).toNat + j) := by
        simp [getElem?_range hj]
      rw [hbyte, ← s.vol.lcnbmp.bit_byte hi]
      exact hs.stored _

/-- After a window the search goes on behind it, or from the zone's position. -/
lemma Searching.nextWindow : Searching vol startVcn count (s.nextWindow bufSize) := by
  unfold AllocState.nextWindow
  split <;> exact { hs with }

end

lemma nextWindow_rank (hpoint : before.point = .window)
    (hsame : SameSearch { before with bmpPos := before.bmpPos / 8 * 8 } s) (hbuf : 8 ≤ bufSize)
    (hlt : before.bmpPos < 8 * size) :
    searchRank size (s.nextWindow bufSize) < searchRank size before := by
  have hpos : s.bmpPos = before.bmpPos / 8 * 8 := hsame.bmpPos
  have hpass : s.pass = before.pass := hsame.pass
  have hzone := hsame.searchZone
  have hdone := hsame.doneZones
  have hused : s.usedZonePos = before.usedZonePos := hsame.usedZonePos
  apply searchRank_lt
  unfold nextWindow
  cases hcase : s.usedZonePos with
  | true =>
    rw [hcase] at hused
    refine .inr ⟨by simp [hzone, hdone], .inr ⟨by simp [passRank, hpass, ← hused], ?_⟩⟩
    simp only [pointRank, hpoint, if_true]
    split
    next hwindow => omega
    next hend => omega
    next h => split at h <;> cases h
  | false =>
    rw [hcase] at hused
    refine .inr ⟨by simp [hzone, hdone], .inl ?_⟩
    simp only [passRank, ← hused, ← hpass, Bool.false_eq_true, if_false]
    split <;> simp

/-- What follows the search of the window at the position of `before`. -/
lemma finishWindow_searching (hbefore : Searching vol startVcn count before)
    (hpoint : before.point = .window) (hnonneg : 0 ≤ before.bmpPos)
    (hlt : before.bmpPos < 8 * vol.lcnbmp.size) (hne : 0 < w.buf.length)
    (hr : WindowSearched vol startVcn count (before.bmpPos / 8).toNat
      { before with bmpPos := before.bmpPos / 8 * 8 } w r) :
    (∃ s', finishWindow (before.bmpPos / 8) r.1 r.2.1 r.2.2 = .inl s' ∧
      Searching vol startVcn count s' ∧
      searchRank vol.lcnbmp.size s' < searchRank vol.lcnbmp.size before) ∨
    ∃ e, finishWindow (before.bmpPos / 8) r.1 r.2.1 r.2.2 = .inr e ∧
      ExitAccount vol startVcn count e := by
  obtain ⟨s, w', exit⟩ := r
  obtain ⟨v, hback, htaken, hstored⟩ := hr.inWindow.writeback
  rw [Int.toNat_of_nonneg (by omega)] at hback
  unfold finishWindow
  rw [hback]
  cases exit with
  | allocated =>
    refine .inr ⟨_, rfl, htaken.account hstored, ?_⟩
    have hzero := hr.allocated rfl
    have hcount := hr.inWindow.clusters_eq
    rw [hzero] at hcount
    exact (Int.sub_eq_zero.mp hcount.symm).symm
  | noMemory => exact .inr ⟨_, rfl, htaken.account hstored, .enomem, rfl⟩
  | leave =>
    have hzones := hbefore.zones
    rw [← hr.same.searchZone, ← hr.same.doneZones] at hzones
    have hnext : Searching vol startVcn count { s with vol := v } :=
      { htaken with
        stored := hstored, unfinished := hr.unfinished WindowExit.noConfusion, zones := hzones }
    refine .inl ⟨_, rfl, hnext.nextWindow, nextWindow_rank hpoint ?_ ?_ hlt⟩
    · exact ⟨hr.same.bmpPos, hr.same.pass, hr.same.searchZone, hr.same.doneZones,
        hr.same.usedZonePos⟩
    · have hlen := hr.length_eq
      omega

section

variable (hvol : ConsistentVolume vol) (realloc : Nat → Bool) (hs : Searching vol startVcn count s)
include hvol hs

/-- One window either ends the search or brings it closer to its end. -/
lemma windowStep_searching (hpoint : s.point = .window) :
    (∃ s', windowStep realloc startVcn s = .inl s' ∧ Searching vol startVcn count s' ∧
      searchRank vol.lcnbmp.size s' < searchRank vol.lcnbmp.size s) ∨
    ∃ r, windowStep realloc startVcn s = .inr r ∧ ExitAccount vol startVcn count r := by
  have hpassDone : Searching vol startVcn count { s with point := .zonePassDone } ∧
      searchRank vol.lcnbmp.size { s with point := .zonePassDone } <
        searchRank vol.lcnbmp.size s := ⟨{ hs with }, zonePassDone_rank hpoint⟩
  unfold windowStep
  split
  · exact .inl ⟨_, rfl, hpassDone⟩
  · cases hread : s.vol.lcnbmp.pread (s.bmpPos / 8) lcnallocBsize with
    | error e =>
      refine .inr ⟨_, rfl, hs.account hs.stored, ?_⟩
      unfold pread at hread
      split at hread
      · exact ⟨.einval, (Except.error.inj hread).symm⟩
      · cases hread
    | ok buf =>
      cases buf with
      | nil => exact .inl ⟨_, rfl, hpassDone⟩
      | cons b buf =>
        obtain ⟨hwindow, hnonneg, hlt⟩ := hs.readWindow hread (cons_ne_nil b buf)
        exact finishWindow_searching hs hpoint hnonneg hlt
          (length_pos_iff.mpr (cons_ne_nil b buf))
          (windowLoop_searched hvol hwindow hs.unfinished)

lemma search_ends :
    ∃ fuel r, Loop.run (allocStep realloc startVcn) fuel s = some r ∧
      ExitAccount vol startVcn count r := by
  refine Loop.run_total (searchRank vol.lcnbmp.size) (fun s hs => ?_) hs
  unfold allocStep
  cases hpoint : s.point with
  | window => exact windowStep_searching hvol realloc hs hpoint
  | zonePassDone =>
    exact .inl ⟨_, rfl, passDone_searching hs, passDone_rank hpoint⟩
  | doneZonesCheck => exact doneZonesStep_searching hs

end

lemma allocInitial_searching (hcount : 1 ≤ count) :
    Searching vol startVcn count (allocInitial vol count startLcn zone) where
  runs := trivial
  prev := fun _ _ h => by cases h
  nodup := nodup_nil
  fresh := fun k hk => by cases hk
  clusters_eq := (sub_zero count).symm
  free_eq := (sub_zero vol.freeClusters).symm
  size_eq := rfl
  stored := fun k => by simp [usedBit, allocInitial]
  unfinished := hcount
  zones := by
    unfold ZonesInOrder
    split
    · exact ⟨rfl, fun h => by cases h⟩
    · rfl
    · exact fun h => by cases h

end

end NtfsDxe
