import NtfsDxe.Runlist.PairExpansion

/-! # Round trip of mapping pairs

The array built from a runlist at any start cluster has exactly the computed
size, and the driver expands it into a runlist that maps every cluster from the
start on as the original one does.
-/

namespace NtfsDxe

open Foundation List

/-! ## Entering a runlist in the middle of a run -/

section Entry

variable {t : RunlistElement} (vol : Volume)

section

variable (hrange : LcnInRange e) (hin : e.vcn ≤ startVcn ∧ startVcn < e.vcn + e.length)
include hrange hin

lemma storesLcn_dropTo : storesLcn vol (e.dropTo startVcn) = storesLcn vol e := by
  unfold storesLcn
  congr 1
  rw [decide_eq_decide, e.dropTo_lcn hrange hin, RunlistElement.lcnOf]
  split <;> omega

variable (hlcn : lcnHole ≤ e.lcn)
include hlcn

lemma s64_dropTo_lcn : s64 (e.dropTo startVcn).lcn = (e.dropTo startVcn).lcn := by
  have hlast := e.dropTo_lcnInRange hrange hin
  have hle := e.dropTo_hole_le hrange hin hlcn
  have hlength := e.dropTo_length startVcn
  unfold LcnInRange at hlast
  unfold lcnHole at hle
  exact s64_of_isS64 (isS64_iff.mpr (by omega))

/-- The first change of a partial run is its cluster number. -/
lemma lcnChange_dropTo :
    lcnChange vol 0 (e.dropTo startVcn) =
      if storesLcn vol e then some (partialLcn e (startVcn - e.vcn)) else none := by
  rw [lcnChange, storesLcn_dropTo vol hrange hin, sub_zero, s64_dropTo_lcn hrange hin hlcn]
  rfl

lemma followingLcn_dropTo :
    followingLcn vol 0 (e.dropTo startVcn) = (lcnChange vol 0 (e.dropTo startVcn)).getD 0 := by
  rw [lcnChange_dropTo vol hrange hin hlcn, followingLcn, storesLcn_dropTo vol hrange hin]
  split <;> rfl

end

lemma clipRuns_lcnInRange (hchain : Chain a runs b) (hrange : ∀ e ∈ runs, LcnInRange e) :
    ∀ e ∈ clipRuns startVcn runs, LcnInRange e := by
  induction runs generalizing a with
  | nil => simp [clipRuns]
  | cons e rest ih =>
    obtain ⟨_, hpos, _, hrest⟩ := hchain
    have hhead := hrange e mem_cons_self
    have htail : ∀ e ∈ rest, LcnInRange e := fun e he => hrange e (mem_cons_of_mem _ he)
    rw [clipRuns]
    split
    next => exact ih hrest htail
    next hnot =>
      split
      next hmid =>
        intro e' he'
        rcases mem_cons.mp he' with rfl | hmem
        · exact e.dropTo_lcnInRange hhead (by omega)
        · exact htail e' hmem
      next => exact hrange

lemma clipRuns_length_le (runs : List RunlistElement) :
    (clipRuns startVcn runs).length ≤ runs.length := by
  induction runs with
  | nil => exact le_refl 0
  | cons e rest ih =>
    rw [clipRuns]
    split
    next => exact Nat.le_succ_of_le ih
    next => split <;> exact le_refl _

section

variable (hmid : e.vcn < startVcn) (hpos : 0 < e.length) (hlcn : lcnHole ≤ e.lcn)
  (hrange : LcnInRange e) (hlt : startVcn < e.vcn + e.length)
include hmid hpos hlcn hrange hlt

lemma buildFrom_mid_stored (hwrite : writePair buf 0 dstMax (e.dropTo startVcn).length
      (lcnChange vol 0 (e.dropTo startVcn)) = .ok (buf', some dstNext)) :
    buildFrom vol startVcn dstMax buf (e :: rl) =
      buildLoop vol dstMax rl (followingLcn vol 0 (e.dropTo startVcn)) dstNext buf' := by
  rw [followingLcn_dropTo vol hrange ⟨by omega, hlt⟩ hlcn,
    lcnChange_dropTo vol hrange ⟨by omega, hlt⟩ hlcn]
  rw [lcnChange_dropTo vol hrange ⟨by omega, hlt⟩ hlcn, e.dropTo_length] at hwrite
  rw [buildFrom, if_neg (by omega), if_pos hmid, if_neg (not_badRun hpos hlcn)]
  simp only [hwrite, bind, Except.bind]

lemma buildFrom_mid_full (hwrite : writePair buf 0 dstMax (e.dropTo startVcn).length
      (lcnChange vol 0 (e.dropTo startVcn)) = .ok (buf', none)) :
    buildFrom vol startVcn dstMax buf (e :: rl) = finishBuild false buf' 0 (e :: rl) := by
  rw [lcnChange_dropTo vol hrange ⟨by omega, hlt⟩ hlcn, e.dropTo_length] at hwrite
  rw [buildFrom, if_neg (by omega), if_pos hmid, if_neg (not_badRun hpos hlcn)]
  simp only [hwrite, bind, Except.bind]

end

section

variable (hchain : Chain a runs b) (ht : t.vcn = b) (hterm : t.length = 0)
  (hrange : ∀ e ∈ runs, LcnInRange e) (ha : a ≤ startVcn) (hb : startVcn ≤ b)
include hchain ht hterm hrange ha hb

lemma sizeFrom_skipTo (maxSize : Int) (hmax : 1 ≤ maxSize) :
    sizeFrom vol startVcn maxSize (skipTo startVcn (runs ++ [t])) =
      sizeLoop vol maxSize (clipRuns startVcn runs ++ [t]) 0 1 := by
  rcases skipTo_chain hchain ht hterm ha hb with
    ⟨front, e, rest, heq, hskip, hle, hlt, hfound, hclip⟩ | ⟨hend, hskip, hclip⟩
  · obtain ⟨_, hpos, hlcn, _⟩ := hfound
    have hmem : LcnInRange e := hrange e (by rw [heq]; simp)
    rw [hskip, hclip, cons_append, sizeFrom, if_neg (by omega)]
    by_cases hmid : e.vcn < startVcn
    · have hlength := e.dropTo_length startVcn
      have hbad : ¬ BadRun (e.dropTo startVcn) :=
        not_badRun (by omega) (e.dropTo_hole_le hmem ⟨hle, hlt⟩ hlcn)
      rw [if_pos hmid, if_neg (not_badRun hpos hlcn), if_pos hmid, cons_append]
      conv_rhs =>
        rw [sizeLoop, if_neg (by omega), if_neg hbad, storesLcn_dropTo vol hmem ⟨hle, hlt⟩,
          sub_zero, s64_dropTo_lcn hmem ⟨hle, hlt⟩ hlcn]
      rfl
    · rw [if_neg hmid, if_neg hmid, cons_append]
  · rw [hskip, hclip, nil_append, sizeFrom, if_neg (by omega), if_neg (by omega)]

/-- Building from a start cluster stores the clipped runs. When not even the
rest of a run entered in the middle fits, the reported run is the whole one. -/
lemma buildFrom_skipTo (buf : Buffer) (hbuf : 0 < buf.length) :
    ∃ stored rest stop buf', clipRuns startVcn runs = stored ++ rest ∧
      buildFrom vol startVcn (buf.length - 1) buf (skipTo startVcn (runs ++ [t])) =
        .ok { complete := rest.isEmpty, dst := buf', stopRl := some stop } ∧
      (stop = rest ++ [t] ∨ stored = [] ∧ ∃ e tail, e.vcn < startVcn ∧
        rest = e.dropTo startVcn :: tail ∧ stop = e :: tail ++ [t]) ∧
      stop <:+ skipTo startVcn (runs ++ [t]) ∧
      buf'.length = buf.length ∧
      buf'.take ((runsBytes vol stored 0).length + 1) = runsBytes vol stored 0 ++ [0] ∧
      (runsBytes vol stored 0).length < buf.length ∧
      (rest = [] → buf' = splice buf 0 (runsBytes vol stored 0 ++ [0])) ∧
      ∀ e ∈ rest.head?, buf.length ≤ (runsBytes vol stored 0).length +
        (pairBytes e.length (lcnChange vol (lastLcn vol stored 0) e)).length := by
  obtain ⟨stored, rest, buf', heq, hbuild, hlen, htake, hend, hfull, hnext⟩ :=
    buildLoop_chain vol 0 0 buf (hchain.clipRuns hrange ha hb) hterm hbuf
  simp only [zero_add] at htake hend hnext
  rcases skipTo_chain hchain ht hterm ha hb with
    ⟨front, e, tail, hruns, hskip, hle, hlt, hfound, hclip⟩ | ⟨hstop, hskip, hclip⟩
  · obtain ⟨_, hpos, hlcn, _⟩ := hfound
    have hmem : LcnInRange e := hrange e (by rw [hruns]; simp)
    by_cases hmid : e.vcn < startVcn
    · rw [if_pos hmid] at hclip
      have hlength := e.dropTo_length startVcn
      have hpos' : 0 < (e.dropTo startVcn).length := by omega
      have hlcn' := e.dropTo_hole_le hmem ⟨hle, hlt⟩ hlcn
      by_cases hfit : 0 + (pairBytes (e.dropTo startVcn).length
          (lcnChange vol 0 (e.dropTo startVcn))).length < buf.length
      · have hsuffix : rest ++ [t] <:+ e :: tail ++ [t] := by
          cases stored with
          | nil =>
            -- The first run fits, so the runs left over are not all of them.
            rw [hclip, nil_append] at heq
            have hnot := hnext (e.dropTo startVcn) (by rw [← heq]; rfl)
            simp only [runsBytes, lastLcn, length_nil] at hnot
            omega
          | cons x stored =>
            rw [hclip] at heq
            injection heq with _ htail
            exact ⟨e :: stored, by simp [htail]⟩
        refine ⟨stored, rest, rest ++ [t], buf', heq, ?_, .inl rfl, hskip ▸ hsuffix, hlen, htake,
          hend, hfull, hnext⟩
        have hwrite := writePair_fits buf 0 _ _ hfit
        rw [hclip, cons_append, buildLoop_cons_stored hpos' hlcn' hwrite] at hbuild
        rw [hskip, cons_append, buildFrom_mid_stored vol hmid hpos hlcn hmem hlt hwrite]
        exact hbuild
      · obtain ⟨full, hwrite, hfullLen, _⟩ := writePair_full buf 0
          (e.dropTo startVcn).length (lcnChange vol 0 (e.dropTo startVcn)) hbuf (by omega)
        rw [hclip, cons_append, buildLoop_cons_full hpos' hlcn' hwrite, finishBuild,
          store_ok _ (by omega)] at hbuild
        -- The same buffer is left, but the run reported is the one before clipping.
        injection hbuild with hbuild
        injection hbuild with hcomplete hdst hstopRl
        have hrest : rest = e.dropTo startVcn :: tail := by
          injection hstopRl with hstopRl
          exact (append_cancel_right hstopRl).symm
        have hstored : stored = [] := by
          rw [hclip, hrest] at heq
          exact self_eq_append_left.mp heq
        refine ⟨stored, rest, e :: tail ++ [t], buf', heq, ?_,
          .inr ⟨hstored, e, tail, hmid, hrest, rfl⟩, hskip ▸ suffix_rfl, hlen, htake, hend,
          hfull, hnext⟩
        rw [hskip, cons_append, buildFrom_mid_full vol hmid hpos hlcn hmem hlt hwrite,
          finishBuild, store_ok _ (by omega), ← hdst, ← hcomplete]
        rfl
    · rw [if_neg hmid] at hclip
      have hsuffix : rest ++ [t] <:+ e :: tail ++ [t] := ⟨stored, by rw [← hclip, heq]; simp⟩
      refine ⟨stored, rest, rest ++ [t], buf', heq, ?_, .inl rfl, hskip ▸ hsuffix, hlen, htake,
        hend, hfull, hnext⟩
      rw [hskip, cons_append, buildFrom, if_neg (by omega), if_neg hmid]
      rwa [hclip] at hbuild
  · have hsuffix : rest ++ [t] <:+ skipTo startVcn (runs ++ [t]) := by
      rw [hskip]
      exact ⟨stored, by rw [← append_assoc, ← heq, hclip]; rfl⟩
    refine ⟨stored, rest, rest ++ [t], buf', heq, ?_, .inl rfl, hsuffix, hlen, htake, hend,
      hfull, hnext⟩
    rw [hskip, buildFrom, if_neg (by omega), if_neg (by omega)]
    rwa [hclip] at hbuild

end

end Entry

/-! ## Sizes and arrays of a runlist -/

def MappedRunlist.runs (rl : MappedRunlist) : List RunlistElement := rl.elements.dropLast

/-- The runs that a mapping pairs array from `startVcn` on describes. -/
def MappedRunlist.runsFrom (rl : MappedRunlist) (startVcn : Int) : List RunlistElement :=
  clipRuns startVcn rl.runs

lemma MappedRunlist.exists_terminator (rl : MappedRunlist) :
    ∃ t, rl.elements = rl.runs ++ [t] ∧ t.length = 0 ∧ t.vcn = rl.lastVcn ∧
      Chain rl.firstVcn rl.runs rl.lastVcn := by
  obtain ⟨runs, t, heq, hlen, ht, hchain⟩ := rl.contiguous.exists_chain
  have hruns : rl.runs = runs := by rw [MappedRunlist.runs, heq, dropLast_concat]
  rw [hruns]
  exact ⟨t, heq, hlen, ht, hchain⟩

lemma MappedRunlist.runs_lcnInRange (rl : MappedRunlist) : ∀ e ∈ rl.runs, LcnInRange e :=
  fun e he => rl.lcn_inRange e (dropLast_subset _ he)

lemma MappedRunlist.isS64 (rl : MappedRunlist) (hfirst : rl.firstVcn ≤ vcn)
    (hlast : vcn ≤ rl.lastVcn) : IsS64 vcn := by
  have hend : IsS64 rl.lastVcn := rl.end_isS64
  have hnonneg : 0 ≤ rl.firstVcn := rl.vcn_nonneg
  rw [isS64_iff] at hend ⊢
  omega

section Start

variable (vol : Volume) (rl : MappedRunlist) (hfirst : rl.firstVcn ≤ startVcn)
  (hlast : startVcn ≤ rl.lastVcn)

include hfirst hlast

lemma MappedRunlist.runsFrom_chain : Chain startVcn (rl.runsFrom startVcn) rl.lastVcn := by
  obtain ⟨t, _, _, _, hchain⟩ := rl.exists_terminator
  exact hchain.clipRuns rl.runs_lcnInRange hfirst hlast

lemma MappedRunlist.runsFrom_storable : ∀ e ∈ rl.runsFrom startVcn, Storable e := by
  obtain ⟨t, _, _, _, hchain⟩ := rl.exists_terminator
  have hnonneg := rl.vcn_nonneg
  exact (rl.runsFrom_chain hfirst hlast).storable (hnonneg.trans hfirst) rl.end_isS64
    (clipRuns_lcnInRange hchain rl.runs_lcnInRange)

lemma getSizeForMappingPairs_eq :
    getSizeForMappingPairs vol (some rl.elements) startVcn intMax =
      .ok ((runsBytes vol (rl.runsFrom startVcn) 0).length + 1 : Nat) := by
  obtain ⟨t, heq, hterm, ht, hchain⟩ := rl.exists_terminator
  have hstart : 0 ≤ startVcn := rl.vcn_nonneg.trans hfirst
  have hfrom := rl.runsFrom_chain hfirst hlast
  -- Seventeen bytes per run stay below the limit because an element takes more.
  have hbytes := runsBytes_length_le vol 0 hfrom hstart rl.end_isS64
  have hsize := rl.size_int
  have hcount : (rl.runsFrom startVcn).length + 1 ≤ rl.elements.length := by
    rw [heq, length_append]
    exact Nat.add_le_add_right (clipRuns_length_le rl.runs) 1
  simp only [sizeofRunlistElement, intMax] at hsize
  rw [getSizeForMappingPairs, if_neg (by omega), heq,
    sizeFrom_skipTo vol hchain ht hterm rl.runs_lcnInRange hfirst hlast intMax (by decide)]
  change sizeLoop vol intMax (rl.runsFrom startVcn ++ [t]) 0 1 = _
  rw [sizeLoop_chain vol 0 1 hfrom hterm (by unfold intMax; omega)]
  congr 1
  push_cast
  ring

/-- Building into a buffer of at least the computed size stores all pairs. -/
lemma mappingPairsBuild_complete
    (hroom : (runsBytes vol (rl.runsFrom startVcn) 0).length < dst.length) :
    ∃ stop, mappingPairsBuild vol dst (some rl.elements) startVcn =
      .ok { complete := true
            dst := splice dst 0 (runsBytes vol (rl.runsFrom startVcn) 0 ++ [0])
            stopRl := stop } := by
  obtain ⟨t, heq, hterm, ht, hchain⟩ := rl.exists_terminator
  have hstart : 0 ≤ startVcn := rl.vcn_nonneg.trans hfirst
  obtain ⟨stored, rest, stop, buf', hsplit, hbuild, _, _, _, _, _, hfull, hnext⟩ :=
    buildFrom_skipTo vol hchain ht hterm rl.runs_lcnInRange hfirst hlast dst (by omega)
  change rl.runsFrom startVcn = stored ++ rest at hsplit
  have hrest : rest = [] := by
    cases rest with
    | nil => rfl
    | cons e rest =>
      have hnot := hnext e rfl
      rw [hsplit, runsBytes_append, runsBytes] at hroom
      simp only [length_append] at hroom
      omega
  subst hrest
  rw [append_nil] at hsplit
  rw [mappingPairsBuild, if_neg (by omega), heq]
  exact ⟨some stop, by rw [hsplit, ← hfull rfl]; exact hbuild⟩

end Start

/-! ## Expanding the array -/

/-- A non-resident attribute record that holds the mapping pairs `pairs` of the
clusters of `rl` from `startVcn` on, and whose sizes agree with the runlist. -/
structure HoldsPairs (vol : Volume) (rl : MappedRunlist) (startVcn : Int) (pairs : Buffer)
    (attr : AttrRecord) : Prop where
  nonResident : attr.nonResident = true
  lowestVcn_eq : attr.lowestVcn = startVcn
  highestVcn_eq : attr.highestVcn = rl.lastVcn - 1
  allocatedSize_eq : startVcn = 0 → attr.allocatedSize = rl.lastVcn * vol.clusterSize
  holds : HoldsAt attr.mem attr.mappingPairsOffset pairs
  inside : attr.mappingPairsOffset + pairs.length ≤ attr.length

/-- The element that stands for the clusters before those of an extent. -/
def unmappedBefore (startVcn : Int) : List RunlistElement :=
  if startVcn = 0 then [] else [{ vcn := 0, lcn := lcnRlNotMapped, length := startVcn }]

lemma unmappedBefore_length_le : (unmappedBefore startVcn).length ≤ 1 := by
  unfold unmappedBefore
  split <;> simp

/-- Looking a cluster of a chain up in an array that starts with an unmapped element. -/
lemma rlVcnToLcn_unmappedBefore (hchain : Chain a runs b) (ht : t.vcn = b)
    (hrange : ∀ e ∈ runs, LcnInRange e) (ha : 0 ≤ a) (hvcn : a ≤ vcn)
    (hlcn : lcnAt runs vcn = some lcn) :
    rlVcnToLcn (some (unmappedBefore a ++ (runs ++ [t]))) vcn = lcn := by
  have hfind := findLcn_eq_lcnAt hchain ht hrange hvcn hlcn
  have hnext := hchain.nextVcn_append ht
  rw [rlVcnToLcn, if_neg (by omega)]
  unfold unmappedBefore
  by_cases hzero : a = 0
  · simp only [hzero, if_true, nil_append] at hnext ⊢
    rw [if_neg (by omega), hfind]
  · simp only [hzero, if_false, singleton_append, nextVcn_cons]
    rw [if_neg (by omega), findLcn, if_neg hzero, if_neg (by omega), hfind]

lemma initialDecodeState_eq (attr : AttrRecord) :
    initialDecodeState attr =
      { buf := attr.mappingPairsOffset, vcn := attr.lowestVcn, lcn := 0,
        rl := unmappedBefore attr.lowestVcn,
        rlpos := UInt16.ofNat (unmappedBefore attr.lowestVcn).length } := by
  unfold initialDecodeState unmappedBefore
  split
  next hzero => rw [hzero]; rfl
  next => rfl

/-- The number of clusters is recovered from the allocated size: rounding up to
whole clusters neither overflows nor adds one. -/
lemma clusters_of_allocatedSize (vol : Volume) (hpos : 0 < clusters)
    (hfits : IsS64 (clusters * vol.clusterSize)) :
    s64 (clusters * vol.clusterSize + vol.clusterSize - 1) / 2 ^ vol.clusterSizeBits =
      clusters := by
  have hsize : (vol.clusterSize : Int) = 2 ^ vol.clusterSizeBits := by
    rw [vol.clusterSize_eq]
    rfl
  rw [hsize] at hfits ⊢
  set size : Int := 2 ^ vol.clusterSizeBits
  have hsizePos : 0 < size := by positivity
  rw [isS64_iff] at hfits
  have hbits : vol.clusterSizeBits ≤ 63 := by
    by_contra hlarge
    have hpow : (2 : Int) ^ 64 ≤ size := pow_le_pow_right₀ (by norm_num) (by omega)
    have hle : size ≤ clusters * size := le_mul_of_one_le_left (by omega) (by omega)
    omega
  -- The limit is a whole number of clusters, so one more cluster still ends below it.
  have hlimit : (9223372036854775808 : Int) = 2 ^ (63 - vol.clusterSizeBits) * size := by
    rw [← pow_add, Nat.sub_add_cancel hbits]
    norm_num
  have hnext : (clusters + 1) * size ≤ 9223372036854775808 := by
    rw [hlimit] at hfits ⊢
    have hlt : clusters < 2 ^ (63 - vol.clusterSizeBits) :=
      lt_of_mul_lt_mul_right hfits.2 (by omega)
    exact mul_le_mul_of_nonneg_right (by omega) (by omega)
  have hround : IsS64 (clusters * size + size - 1) := by
    have hmul : (clusters + 1) * size = clusters * size + size := by ring
    rw [isS64_iff]
    omega
  rw [s64_of_isS64 hround, show clusters * size + size - 1 = (size - 1) + clusters * size by ring,
    Int.add_mul_ediv_right _ _ (by omega), Int.ediv_eq_zero_of_lt (by omega) (by omega)]
  omega

section Expand

/-- Closing the array of an extent that reaches the end of the runlist adds
just a terminator. -/
lemma closeRunlist_holdsPairs (hattr : HoldsPairs vol rl startVcn pairs attr)
    (hstart : 0 ≤ startVcn) (hlast : startVcn < rl.lastVcn) (hvcn : s.vcn = rl.lastVcn)
    (hpos : s.rlpos.toNat = s.rl.length) :
    ∃ t, closeRunlist vol attr s = .ok (s.rl ++ [t]) ∧ t.vcn = rl.lastVcn := by
  have hprev : s64 (s.vcn - 1) = attr.highestVcn := by
    have hend := rl.end_isS64
    change IsS64 rl.lastVcn at hend
    rw [hattr.highestVcn_eq, hvcn]
    apply s64_of_isS64
    rw [isS64_iff] at hend ⊢
    omega
  unfold closeRunlist
  rw [if_neg (by simp [hprev]), hpos]
  by_cases hbase : attr.lowestVcn = 0
  · have hzero : startVcn = 0 := hattr.lowestVcn_eq ▸ hbase
    have hsize := hattr.allocatedSize_eq hzero
    have hclusters := clusters_of_allocatedSize vol (by omega : 0 < rl.lastVcn)
      (hsize ▸ attr.inRange.2.2)
    rw [if_pos hbase, hsize, hattr.highestVcn_eq, if_neg (by omega), if_neg (by omega),
      putElement_end]
    exact ⟨_, rfl, hvcn⟩
  · rw [if_neg hbase, putElement_end]
    exact ⟨_, rfl, hvcn⟩

/-- The driver expands the pairs of a runlist into the runs they were built from. -/
lemma mappingPairsDecompress_holdsPairs (hfirst : rl.firstVcn ≤ startVcn)
    (hlast : startVcn < rl.lastVcn) (hcount : (rl.runsFrom startVcn).length < 65535)
    (hattr : HoldsPairs vol rl startVcn (runsBytes vol (rl.runsFrom startVcn) 0 ++ [0]) attr) :
    ∃ t, mappingPairsDecompress vol attr =
        .ok (unmappedBefore startVcn ++ (rl.runsFrom startVcn ++ [t])) ∧ t.vcn = rl.lastVcn := by
  have hstart : 0 ≤ startVcn := rl.vcn_nonneg.trans hfirst
  have hinside := hattr.inside
  rw [length_append, length_singleton] at hinside
  have hlowest := hattr.lowestVcn_eq
  have hexpand := expandPairs_runsBytes vol attr.mappingPairsOffset 0
    (rl.runsFrom_chain hfirst (le_of_lt hlast)) hstart rl.end_isS64
    (rl.runsFrom_storable hfirst (le_of_lt hlast)) hattr.holds (by omega)
  have hbefore := @unmappedBefore_length_le startVcn
  have hindex : (UInt16.ofNat (unmappedBefore startVcn).length).toNat =
      (unmappedBefore startVcn).length := by
    rw [UInt16.toNat_ofNat', Nat.mod_eq_of_lt (by omega)]
  let s : DecodeState :=
    { buf := attr.mappingPairsOffset, vcn := startVcn, lcn := 0, rl := unmappedBefore startVcn,
      rlpos := UInt16.ofNat (unmappedBefore startVcn).length }
  obtain ⟨hloop, hend⟩ := decodeLoop_expandPairs (s := s) hexpand hindex (by simp [s]; omega)
  obtain ⟨t, hclose, ht⟩ := closeRunlist_holdsPairs hattr hstart hlast
    (s := { buf := attr.mappingPairsOffset + (runsBytes vol (rl.runsFrom startVcn) 0).length
            vcn := rl.lastVcn
            lcn := lastLcn vol (rl.runsFrom startVcn) 0
            rl := unmappedBefore startVcn ++ rl.runsFrom startVcn
            rlpos := UInt16.ofNat ((unmappedBefore startVcn).length +
              (rl.runsFrom startVcn).length) }) rfl (by
      rw [UInt16.toNat_ofNat', Nat.mod_eq_of_lt (by omega), length_append])
  refine ⟨t, ?_, ht⟩
  rw [mappingPairsDecompress, if_neg (by simp [hattr.nonResident]; omega), if_neg (by omega),
    initialDecodeState_eq, hlowest, hloop]
  simp only [bind, Except.bind]
  rw [if_neg (by omega), hclose, append_assoc]

end Expand

/-! ## Main result -/

lemma rlVcnToLcn_mappedRunlist {rl : MappedRunlist} (hvcn : rl.firstVcn ≤ vcn)
    (hlcn : lcnAt rl.runs vcn = some lcn) : rlVcnToLcn (some rl.elements) vcn = lcn := by
  obtain ⟨t, heq, _, ht, hchain⟩ := rl.exists_terminator
  have hnonneg : 0 ≤ rl.firstVcn := rl.vcn_nonneg
  have hnext := hchain.nextVcn_append ht
  rw [rlVcnToLcn, if_neg (by omega), heq, if_neg (by omega)]
  exact findLcn_eq_lcnAt hchain ht rl.runs_lcnInRange hvcn hlcn

/-- Mapping pairs round trip: a buffer of at least the computed size receives
exactly that many bytes, ending with the terminator, and a record that holds
them expands to a runlist with the same cluster numbers from the start on. -/
theorem mappingPairs_roundTrip (vol : Volume) (rl : MappedRunlist) (startVcn : Int)
    (hfirst : rl.firstVcn ≤ startVcn) (hlast : startVcn < rl.lastVcn) :
    ∃ n : Nat, getSizeForMappingPairs vol (some rl.elements) startVcn intMax = .ok n ∧
      ∀ dst : Buffer, n ≤ dst.length → ∃ built : BuildResult,
        mappingPairsBuild vol dst (some rl.elements) startVcn = .ok built ∧
        built.complete = true ∧
        built.dst.length = dst.length ∧
        built.dst.drop n = dst.drop n ∧
        (built.dst.take n).getLast? = some 0 ∧
        ∀ attr, HoldsPairs vol rl startVcn (built.dst.take n) attr →
          (rl.runsFrom startVcn).length < 65535 →
          ∃ rl', mappingPairsDecompress vol attr = .ok rl' ∧
            ∀ vcn, startVcn ≤ vcn → vcn < rl.lastVcn →
              rlVcnToLcn (some rl') vcn = rlVcnToLcn (some rl.elements) vcn := by
  refine ⟨_, getSizeForMappingPairs_eq vol rl hfirst (le_of_lt hlast), ?_⟩
  intro dst hroom
  set bytes := runsBytes vol (rl.runsFrom startVcn) 0
  obtain ⟨stop, hbuild⟩ := mappingPairsBuild_complete vol rl hfirst (le_of_lt hlast) hroom
  have htake : (splice dst 0 (bytes ++ [0])).take (bytes.length + 1) = bytes ++ [0] := by
    have hfront := splice_take_end dst (bytes ++ [0]) (Nat.zero_le _)
    rwa [length_append, zero_add] at hfront
  refine ⟨_, hbuild, rfl, ?_, ?_, ?_, ?_⟩
  · exact splice_length (by simpa using hroom)
  · have hback := splice_drop_end dst (bytes ++ [0]) (Nat.zero_le _)
    rwa [length_append, zero_add] at hback
  · rw [htake, getLast?_concat]
  · intro attr hattr hcount
    rw [htake] at hattr
    obtain ⟨t, hdecode, ht⟩ := mappingPairsDecompress_holdsPairs hfirst hlast hcount hattr
    refine ⟨_, hdecode, ?_⟩
    intro vcn hle hlt
    -- Both arrays are looked up through the map that clipping restricts.
    have hchain := rl.runsFrom_chain hfirst (le_of_lt hlast)
    obtain ⟨lcn, hlcn⟩ := Option.isSome_iff_exists.mp (hchain.lcnAt_isSome ⟨hle, hlt⟩)
    obtain ⟨_, _, _, _, hwhole⟩ := rl.exists_terminator
    have hsame := lcnAt_clipRuns hwhole rl.runs_lcnInRange hfirst (le_of_lt hlast) vcn
    rw [restrictTo, if_pos ⟨hle, hlt⟩] at hsame
    rw [rlVcnToLcn_unmappedBefore hchain ht (clipRuns_lcnInRange hwhole rl.runs_lcnInRange)
      (rl.vcn_nonneg.trans hfirst) hle hlcn,
      rlVcnToLcn_mappedRunlist (hfirst.trans hle) (hsame ▸ hlcn)]

/-- Two runs around a hole, with a length and a change of cluster number that
need a second byte for their sign. -/
def fragmentedRunlist : MappedRunlist where
  elements := [⟨0, 0x80, 3⟩, ⟨3, lcnHole, 2⟩, ⟨5, 0x7f, 200⟩, ⟨205, lcnEnoent, 0⟩]
  contiguous := by simp [Contiguous, lcnHole]
  vcn_nonneg := by decide
  end_isS64 := by rw [isS64_iff]; decide
  lcn_inRange := by simp [LcnInRange, lcnHole, lcnEnoent]
  size_int := by decide

/-- An NTFS 3.1 volume with clusters of four kilobytes. -/
def volume31 : Volume := ⟨3, 4096, 12, by decide⟩

/-- The record of an extent with the mapping pairs `pairs` behind a header of 64 bytes. -/
def recordOf (lowestVcn highestVcn allocatedSize : Nat) (pairs : Buffer) : AttrRecord where
  mem := [0x80, 0, 0, 0] ++ LittleEndian.bytes 4 (64 + pairs.length) ++
    [1, 0, 64, 0, 0, 0, 0, 0] ++ LittleEndian.bytes 8 lowestVcn ++
    LittleEndian.bytes 8 highestVcn ++ [64, 0, 0, 0, 0, 0, 0, 0] ++
    LittleEndian.bytes 8 allocatedSize ++ LittleEndian.bytes 8 allocatedSize ++
    LittleEndian.bytes 8 allocatedSize ++ pairs
  header_le := by
    simp only [length_append, LittleEndian.bytes_length, length_cons, length_nil]
    omega

lemma recordOf_holds (lowestVcn highestVcn allocatedSize : Nat) (pairs : Buffer) :
    HoldsAt (recordOf lowestVcn highestVcn allocatedSize pairs).mem 64 pairs := by
  intro i hi
  rw [recordOf, getElem?_append_right (by simp), getElem?_eq_getElem (by simpa using hi)]
  simp

/-- A number that is stored in eight bytes. -/
lemma s64_bytes (hv : v < 2 ^ 63) : s64 (LittleEndian.value (LittleEndian.bytes 8 v)) = v := by
  rw [LittleEndian.value_bytes, Nat.mod_eq_of_lt (by omega)]
  apply s64_of_isS64
  rw [isS64_iff]
  omega

lemma recordOf_length (hpairs : 64 + pairs.length < 2 ^ 32) :
    (recordOf lowestVcn highestVcn allocatedSize pairs).length = 64 + pairs.length := by
  unfold AttrRecord.length
  exact (LittleEndian.value_bytes (n := 4)).trans (Nat.mod_eq_of_lt hpairs)

lemma recordOf_lowestVcn (hv : lowestVcn < 2 ^ 63) :
    (recordOf lowestVcn highestVcn allocatedSize pairs).lowestVcn = lowestVcn := by
  unfold AttrRecord.lowestVcn
  exact s64_bytes hv

lemma recordOf_highestVcn (hv : highestVcn < 2 ^ 63) :
    (recordOf lowestVcn highestVcn allocatedSize pairs).highestVcn = highestVcn := by
  unfold AttrRecord.highestVcn
  exact s64_bytes hv

lemma recordOf_mappingPairsOffset :
    (recordOf lowestVcn highestVcn allocatedSize pairs).mappingPairsOffset = 64 := by
  unfold AttrRecord.mappingPairsOffset
  rfl

theorem mappingPairs_roundTrip_fragmented :
    ∃ attr rl', mappingPairsDecompress volume31 attr = .ok rl' ∧
      ∀ vcn, 1 ≤ vcn → vcn < 205 →
        rlVcnToLcn (some rl') vcn = rlVcnToLcn (some fragmentedRunlist.elements) vcn := by
  obtain ⟨n, hsize, hbuild⟩ :=
    mappingPairs_roundTrip volume31 fragmentedRunlist 1 (by decide) (by decide)
  have hn : n ≤ 17 * 3 + 1 := by
    have hchain := fragmentedRunlist.runsFrom_chain (by decide : _ ≤ (1 : Int)) (by decide)
    have hbytes := runsBytes_length_le volume31 0 hchain (by decide) fragmentedRunlist.end_isS64
    have hcount : (fragmentedRunlist.runsFrom 1).length = 3 := by decide
    rw [getSizeForMappingPairs_eq volume31 fragmentedRunlist (by decide) (by decide)] at hsize
    have heq := Int.ofNat.inj (Except.ok.inj hsize)
    omega
  obtain ⟨built, _, _, hlen, _, _, hdecode⟩ := hbuild (List.replicate n 0) (by simp)
  have hpairs : 64 + (built.dst.take n).length < 2 ^ 32 := by
    rw [length_take]
    omega
  refine ⟨recordOf 1 204 0 (built.dst.take n), hdecode _ ⟨rfl, recordOf_lowestVcn (by decide),
    recordOf_highestVcn (by decide), fun h => (by cases h), ?_, ?_⟩ (by decide)⟩
  · rw [recordOf_mappingPairsOffset]
    exact recordOf_holds _ _ _ _
  · rw [recordOf_length hpairs, recordOf_mappingPairsOffset]

end NtfsDxe
