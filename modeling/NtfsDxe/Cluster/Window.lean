import Mathlib.Data.Finset.Card
import NtfsDxe.Cluster.Taken

/-! # Searching a window of the cluster bitmap

While a window is searched, the bitmap consists of the window in memory and of
what is stored outside of it. Together they hold the original bits and those
of the clusters taken so far.
-/

namespace NtfsDxe

open Foundation Bits List

def freeSet (vol : AllocVolume) : Finset Nat :=
  (Finset.range vol.nrClusters.toNat).filter fun k => vol.lcnbmp.bit k = false

/-- The bitmap covers the clusters of the volume, its padding bits are set, and
the number of free clusters is right. -/
structure ConsistentVolume (vol : AllocVolume) : Prop where
  nr_nonneg : 0 ≤ vol.nrClusters
  covered : vol.nrClusters ≤ 8 * vol.lcnbmp.size
  padding : ∀ k : Nat, vol.nrClusters ≤ k → k < 8 * vol.lcnbmp.size → vol.lcnbmp.bit k = true
  free_eq : vol.freeClusters = (freeSet vol).card

lemma ConsistentVolume.mem_freeSet (hvol : ConsistentVolume vol) (hk : k < 8 * vol.lcnbmp.size)
    (hclear : vol.lcnbmp.bit k = false) : k ∈ freeSet vol := by
  have hlt : (k : Int) < vol.nrClusters := by
    by_contra hge
    rw [hvol.padding k (not_lt.mp hge) hk] at hclear
    cases hclear
  rw [freeSet, Finset.mem_filter, Finset.mem_range]
  exact ⟨by omega, hclear⟩

section

variable {startVcn count : Int}

/-- The clusters taken so far are distinct free clusters of `vol`, and they are
accounted for. -/
structure Taken (vol : AllocVolume) (startVcn count : Int) (s : AllocState) : Prop
    extends RunsBuilt startVcn s where
  nodup : (lcnsOf s.rl).Nodup
  fresh : ∀ k ∈ lcnsOf s.rl, k ∈ freeSet vol
  clusters_eq : s.clusters = count - (lcnsOf s.rl).length
  free_eq : s.vol.freeClusters = vol.freeClusters - (lcnsOf s.rl).length
  size_eq : s.vol.lcnbmp.size = vol.lcnbmp.size

/-- Whether a cluster is in use once the runs are taken. -/
def usedBit (vol : AllocVolume) (rl : List RunlistElement) (k : Nat) : Bool :=
  vol.lcnbmp.bit k || decide (k ∈ lcnsOf rl)

/-- The bitmap of the state holds the original bits and those of the clusters taken. -/
def Stored (vol : AllocVolume) (s : AllocState) : Prop :=
  ∀ k, s.vol.lcnbmp.bit k = usedBit vol s.rl k

/-- The invariant while the window from byte `pos` on is searched. -/
structure InWindow (vol : AllocVolume) (startVcn count : Int) (pos : Nat) (s : AllocState)
    (w : AllocWindow) : Prop extends Taken vol startVcn count s where
  bmpPos_eq : s.bmpPos = 8 * pos
  fits : pos + w.buf.length ≤ vol.lcnbmp.size
  inside : ∀ j < w.buf.length, ∀ i < 8,
    getBit (w.buf.getD j 0) i = usedBit vol s.rl (8 * (pos + j) + i)
  outside : ∀ k, k < 8 * pos ∨ 8 * (pos + w.buf.length) ≤ k →
    s.vol.lcnbmp.bit k = usedBit vol s.rl k
  unchanged : w.writeback = false → Stored vol s

variable {s s' : AllocState} {v : AllocVolume}

/-- A clear bit of the window is a free cluster that was not taken. -/
lemma InWindow.clear (hs : InWindow vol startVcn count pos s w) (hvol : ConsistentVolume vol)
    (hlcn : w.lcn < 8 * w.buf.length)
    (hclear : getBit (w.buf.getD (w.lcn / 8) 0) (w.lcn % 8) = false) :
    8 * pos + w.lcn ∈ freeSet vol ∧ 8 * pos + w.lcn ∉ lcnsOf s.rl := by
  have hfits := hs.fits
  have hpos : 8 * (pos + w.lcn / 8) + w.lcn % 8 = 8 * pos + w.lcn := by omega
  have hused := hs.inside (w.lcn / 8) (by omega) (w.lcn % 8) (by omega)
  rw [hclear, hpos, usedBit, eq_comm, Bool.or_eq_false_iff, decide_eq_false_iff_not] at hused
  exact ⟨hvol.mem_freeSet (by omega) hused.1, hused.2⟩

/-- There is a free cluster left to be accounted for. -/
lemma Taken.free_pos (hs : Taken vol startVcn count s) (hvol : ConsistentVolume vol)
    (hk : k ∈ freeSet vol) (hnew : k ∉ lcnsOf s.rl) : 0 < s.vol.freeClusters := by
  have hnodup := nodup_cons.mpr ⟨hnew, hs.nodup⟩
  have hsubset : (k :: lcnsOf s.rl).toFinset ⊆ freeSet vol := by
    intro x hx
    rw [mem_toFinset, mem_cons] at hx
    rcases hx with rfl | hx
    · exact hk
    · exact hs.fresh x hx
  have hcard := Finset.card_le_card hsubset
  rw [toFinset_card_of_nodup hnodup, length_cons] at hcard
  rw [hs.free_eq, hvol.free_eq]
  omega

/-- What the search of a window leaves alone. -/
structure SameSearch (s s' : AllocState) : Prop where
  bmpPos : s'.bmpPos = s.bmpPos
  pass : s'.pass = s.pass
  searchZone : s'.searchZone = s.searchZone
  doneZones : s'.doneZones = s.doneZones
  usedZonePos : s'.usedZonePos = s.usedZonePos

lemma SameSearch.refl (s : AllocState) : SameSearch s s := ⟨rfl, rfl, rfl, rfl, rfl⟩

lemma SameSearch.trans (hab : SameSearch a b) (hbc : SameSearch b c) : SameSearch a c where
  bmpPos := hbc.bmpPos.trans hab.bmpPos
  pass := hbc.pass.trans hab.pass
  searchZone := hbc.searchZone.trans hab.searchZone
  doneZones := hbc.doneZones.trans hab.doneZones
  usedZonePos := hbc.usedZonePos.trans hab.usedZonePos

lemma AllocState.growRunlist_eq (hgrow : s.growRunlist realloc = some s') :
    ∃ n, s' = { s with rlsize := n } := by
  unfold AllocState.growRunlist at hgrow
  split at hgrow
  · split at hgrow
    · exact ⟨_, (Option.some.inj hgrow).symm⟩
    · cases hgrow
  · exact ⟨s.rlsize, (Option.some.inj hgrow).symm⟩

lemma AllocState.addCluster_same (startVcn lcn : Int) (s : AllocState) :
    SameSearch s (s.addCluster startVcn lcn) ∧ (s.addCluster startVcn lcn).vol = s.vol ∧
      (s.addCluster startVcn lcn).clusters = s.clusters := by
  unfold AllocState.addCluster
  cases s.rl with
  | nil => exact ⟨⟨rfl, rfl, rfl, rfl, rfl⟩, rfl, rfl⟩
  | cons last rest =>
    dsimp only
    split <;> exact ⟨⟨rfl, rfl, rfl, rfl, rfl⟩, rfl, rfl⟩

lemma AllocState.takeCluster_same (startVcn lcn : Int) (s : AllocState) :
    SameSearch s (s.takeCluster startVcn lcn) ∧
      (s.takeCluster startVcn lcn).vol.lcnbmp = s.vol.lcnbmp ∧
      (s.takeCluster startVcn lcn).clusters = s.clusters - 1 := by
  obtain ⟨hsame, hvol, hclusters⟩ := s.addCluster_same startVcn lcn
  refine ⟨{ hsame with }, ?_, ?_⟩
  · change (s.addCluster startVcn lcn).vol.lcnbmp = _
    rw [hvol]
  · exact congrArg (· - 1) hclusters

lemma Taken.takeCluster (hs : Taken vol startVcn count s) (hvol : ConsistentVolume vol)
    (hk : k ∈ freeSet vol) (hnew : k ∉ lcnsOf s.rl) :
    Taken vol startVcn count (s.takeCluster startVcn k) ∧
      ∀ x, x ∈ lcnsOf (s.takeCluster startVcn k).rl ↔ x = k ∨ x ∈ lcnsOf s.rl := by
  obtain ⟨hbuilt, hperm⟩ := s.addCluster_built hs.toRunsBuilt (Int.natCast_nonneg k)
  obtain ⟨_, hsame, hclusters⟩ := s.addCluster_same startVcn k
  rw [Int.toNat_natCast] at hperm
  have hmem : ∀ x, x ∈ lcnsOf (s.addCluster startVcn k).rl ↔ x = k ∨ x ∈ lcnsOf s.rl := by
    intro x
    rw [hperm.mem_iff, mem_cons]
  have hlen := hperm.length_eq
  rw [length_cons] at hlen
  have hfree := hs.free_pos hvol hk hnew
  refine ⟨⟨⟨hbuilt.runs, hbuilt.prev⟩, ?_, ?_, ?_, ?_, ?_⟩, hmem⟩
  · exact hperm.nodup_iff.mpr (nodup_cons.mpr ⟨hnew, hs.nodup⟩)
  · intro x hx
    rcases (hmem x).mp hx with rfl | hx
    · exact hk
    · exact hs.fresh x hx
  · change (s.addCluster startVcn k).clusters - 1 = _
    rw [hclusters, hs.clusters_eq]
    change _ = count - ((lcnsOf (s.addCluster startVcn k).rl).length : Int)
    omega
  · change (if s.vol.freeClusters ≤ 0 then s.vol.freeClusters else s.vol.freeClusters - 1) = _
    rw [if_neg (not_le.mpr hfree), hs.free_eq]
    change _ = vol.freeClusters - ((lcnsOf (s.addCluster startVcn k).rl).length : Int)
    omega
  · change (s.addCluster startVcn k).vol.lcnbmp.size = _
    rw [hsame, hs.size_eq]

/-- Setting the bit of a cluster that is taken. -/
lemma InWindow.take (hs : InWindow vol startVcn count pos s w)
    (hs' : Taken vol startVcn count s') (hlcn : w.lcn < 8 * w.buf.length)
    (hbmp : s'.vol.lcnbmp = s.vol.lcnbmp) (hpos : s'.bmpPos = s.bmpPos)
    (hmem : ∀ x, x ∈ lcnsOf s'.rl ↔ x = 8 * pos + w.lcn ∨ x ∈ lcnsOf s.rl) (lcn : Nat) :
    InWindow vol startVcn count pos s' { w.setLcn with lcn := lcn } := by
  have hother : ∀ k, k ≠ 8 * pos + w.lcn → usedBit vol s'.rl k = usedBit vol s.rl k := by
    intro k hk
    simp only [usedBit, hmem, hk, false_or]
  have hlen : w.setLcn.buf.length = w.buf.length := length_set
  refine { hs' with
    bmpPos_eq := hpos.trans hs.bmpPos_eq, fits := by rw [hlen]; exact hs.fits,
    inside := ?_, outside := ?_, unchanged := fun h => (by cases h) }
  · intro j hj i hi
    rw [hlen] at hj
    dsimp only [AllocWindow.setLcn]
    have hbit := hs.inside j hj i hi
    by_cases hjlcn : j = w.lcn / 8
    · rw [hjlcn] at hbit
      rw [hjlcn, getD_set_self _ (by omega), getBit_setBit (by omega) hi, hbit]
      by_cases hilcn : i = w.lcn % 8
      · have hk : 8 * (pos + w.lcn / 8) + i = 8 * pos + w.lcn := by omega
        rw [if_pos hilcn, hk, usedBit, eq_comm, Bool.or_eq_true, decide_eq_true_eq, hmem]
        exact .inr (.inl rfl)
      · rw [if_neg hilcn, hother _ (by omega)]
    · rw [getD_set_ne _ (Ne.symm hjlcn), hbit, hother _ (by omega)]
  · intro k hk
    rw [hlen] at hk
    rw [hbmp, hs.outside k hk, hother _ (by omega)]

@[simp] lemma AllocVolume.updateZonePos_lcnbmp : (v.updateZonePos zone tc).lcnbmp = v.lcnbmp := by
  cases zone <;> rfl

@[simp] lemma AllocVolume.updateZonePos_freeClusters :
    (v.updateZonePos zone tc).freeClusters = v.freeClusters := by
  cases zone <;> rfl

/-- The account does not depend on the positions in the zones. -/
lemma Taken.setVol (hs : Taken vol startVcn count s) (hbmp : v.lcnbmp = s.vol.lcnbmp)
    (hfree : v.freeClusters = s.vol.freeClusters) : Taken vol startVcn count { s with vol := v } :=
  { hs with
    free_eq := hfree.trans hs.free_eq
    size_eq := (congrArg AttrData.size hbmp).trans hs.size_eq }

lemma InWindow.setVol (hs : InWindow vol startVcn count pos s w)
    (hbmp : v.lcnbmp = s.vol.lcnbmp) (hfree : v.freeClusters = s.vol.freeClusters) :
    InWindow vol startVcn count pos { s with vol := v } w :=
  { hs.toTaken.setVol hbmp hfree, hs with
    outside := fun k hk => by rw [hbmp]; exact hs.outside k hk
    unchanged := fun h k => by rw [hbmp]; exact hs.unchanged h k }

structure WindowSearched (vol : AllocVolume) (startVcn count : Int) (pos : Nat) (s : AllocState)
    (w : AllocWindow) (r : AllocState × AllocWindow × WindowExit) : Prop where
  inWindow : InWindow vol startVcn count pos r.1 r.2.1
  length_eq : r.2.1.buf.length = w.buf.length
  same : SameSearch s r.1
  allocated : r.2.2 = .allocated → r.1.clusters = 0
  unfinished : r.2.2 ≠ .allocated → 0 < r.1.clusters

lemma WindowSearched.leave (hs : InWindow vol startVcn count pos s' w)
    (hsame : SameSearch s s') (hclusters : 0 < s'.clusters) (hexit : exit ≠ .allocated) :
    WindowSearched vol startVcn count pos s w (s', w, exit) :=
  ⟨hs, rfl, hsame, fun h => absurd h hexit, fun _ => hclusters⟩

lemma WindowSearched.trans (hr : WindowSearched vol startVcn count pos s' w' r)
    (hsame : SameSearch s s')
    (hlen : w'.buf.length = w.buf.length) : WindowSearched vol startVcn count pos s w r :=
  ⟨hr.inWindow, hr.length_eq.trans hlen, hsame.trans hr.same, hr.allocated, hr.unfinished⟩

lemma InWindow.takeCluster (hs : InWindow vol startVcn count pos s w)
    (hvol : ConsistentVolume vol) (hlcn : w.lcn < 8 * w.buf.length)
    (hclear : getBit (w.buf.getD (w.lcn / 8) 0) (w.lcn % 8) = false)
    (hgrow : s.growRunlist realloc = some s') :
    InWindow vol startVcn count pos (s'.takeCluster startVcn (s.bmpPos + w.lcn))
        { w.setLcn with lcn := lcn } ∧
      SameSearch s (s'.takeCluster startVcn (s.bmpPos + w.lcn)) ∧
      (s'.takeCluster startVcn (s.bmpPos + w.lcn)).clusters = s.clusters - 1 := by
  obtain ⟨n, rfl⟩ := AllocState.growRunlist_eq hgrow
  obtain ⟨hfree, hnew⟩ := hs.clear hvol hlcn hclear
  have hcluster : s.bmpPos + w.lcn = ((8 * pos + w.lcn : Nat) : Int) := by
    rw [hs.bmpPos_eq]
    rfl
  have hgrown : Taken vol startVcn count { s with rlsize := n } := { hs.toTaken with }
  obtain ⟨htaken, hmem⟩ := hgrown.takeCluster hvol hfree hnew
  obtain ⟨hsame, hbmp, hclusters⟩ :=
    AllocState.takeCluster_same startVcn ((8 * pos + w.lcn : Nat) : Int) { s with rlsize := n }
  rw [hcluster]
  exact ⟨hs.take htaken hlcn hbmp hsame.bmpPos hmem lcn,
    { hsame with }, hclusters⟩

lemma windowLoop_searched (hvol : ConsistentVolume vol) (hs : InWindow vol startVcn count pos s w)
    (hclusters : 0 < s.clusters) :
    WindowSearched vol startVcn count pos s w (windowLoop realloc startVcn s w) := by
  induction s, w using windowLoop.induct realloc startVcn with
  | case1 s w hlcn hguess hset =>
    rw [windowLoop, if_pos hlcn, if_pos hguess, if_pos hset]
    exact .leave { hs with } ⟨rfl, rfl, rfl, rfl, rfl⟩ hclusters (by decide)
  | case2 s w hlcn hguess hset hgrow =>
    rw [windowLoop, if_pos hlcn, if_pos hguess, if_neg hset, hgrow]
    exact .leave hs (.refl s) hclusters (by decide)
  | case3 s w hlcn hguess hset s' hgrow hdone =>
    rw [windowLoop, if_pos hlcn, if_pos hguess, if_neg hset, hgrow]
    dsimp only
    rw [if_pos hdone]
    obtain ⟨htaken, hsame, _⟩ := hs.takeCluster hvol hlcn (Bool.eq_false_of_not_eq_true hset) hgrow
    unfold AllocState.updateZonePos
    split
    · refine ⟨htaken.setVol (by simp) (by simp), length_set, ?_, fun _ => hdone,
        fun h => absurd rfl h⟩
      exact { hsame with }
    · exact ⟨htaken, length_set, hsame, fun _ => hdone, fun h => absurd rfl h⟩
  | case4 s w hlcn hguess hset s' hgrow hdone ih =>
    rw [windowLoop, if_pos hlcn, if_pos hguess, if_neg hset, hgrow]
    dsimp only
    rw [if_neg hdone]
    obtain ⟨htaken, hsame, hleft⟩ :=
      hs.takeCluster hvol hlcn (Bool.eq_false_of_not_eq_true hset) hgrow
    refine (ih { htaken with } (by dsimp only; omega)).trans ?_ length_set
    exact { hsame with }
  | case5 s w hlcn hguess hnone =>
    rw [windowLoop, if_pos hlcn, if_neg hguess, if_pos hnone]
    exact .leave hs (.refl s) hclusters (by decide)
  | case6 s w hlcn hguess hsome ih =>
    rw [windowLoop, if_pos hlcn, if_neg hguess, if_neg hsome]
    exact (ih { hs with } hclusters).trans ⟨rfl, rfl, rfl, rfl, rfl⟩ rfl
  | case7 s w hend =>
    rw [windowLoop, if_neg hend]
    exact .leave hs (.refl s) hclusters (by decide)

end

end NtfsDxe
