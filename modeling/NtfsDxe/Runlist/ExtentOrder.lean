import NtfsDxe.Runlist.EndMarker

/-! # The order in which extents are read

The extents of an attribute can be decoded in any order, each into the runlist of
those before it. Every order leads to the same lookups, except that the end of
the attribute is lost in two cases: the base extent is not the first and has one
cluster only, or it is not the first, consists of one run, and that run is joined
to the extent after it, which was decoded before.
-/

namespace NtfsDxe

open List Option

/-- One extent of an attribute with `clusters` clusters: its record, and the runs
that are stored in it. The allocated size in the base extent is that of the whole
attribute. -/
structure Extent (vol : Volume) (clusters : Int) where
  attr : AttrRecord
  expansion : Expansion
  nonResident : attr.nonResident = true
  offset_le : attr.mappingPairsOffset ≤ attr.length
  expands : expandPairs attr attr.mappingPairsOffset attr.lowestVcn 0 = .ok expansion
  first_nonneg : 0 ≤ attr.lowestVcn
  mapped : Chain attr.lowestVcn expansion.runs expansion.vcn
  runs_ne_nil : expansion.runs ≠ []
  lcn_inRange : ∀ e ∈ expansion.runs, LcnInRange e
  count_lt : expansion.runs.length + 2 < 65536
  highest_eq : attr.highestVcn = expansion.vcn - 1
  stop_le : expansion.vcn ≤ clusters
  allocated : attr.lowestVcn = 0 → attr.allocatedSize = clusters * vol.clusterSize

lemma extentEnd_base (hbase : attr.lowestVcn = 0) : extentEnd attr vcn = attributeEnd vcn := by
  rw [extentEnd, if_pos hbase, attributeEnd]

lemma extentEnd_other (hbase : attr.lowestVcn ≠ 0) :
    extentEnd attr vcn = { vcn := vcn, lcn := lcnRlNotMapped, length := 0 } := by
  rw [extentEnd, if_neg hbase]

namespace Extent

def runs (x : Extent vol clusters) : List RunlistElement := x.expansion.runs

def first (x : Extent vol clusters) : Int := x.attr.lowestVcn

def stop (x : Extent vol clusters) : Int := x.expansion.vcn

/-- The attribute cluster `vcn` belongs to the extent. -/
def Contains (x : Extent vol clusters) (vcn : Int) : Prop := x.first ≤ vcn ∧ vcn < x.stop

variable (x : Extent vol clusters)

lemma first_lt_stop : x.first < x.stop :=
  x.mapped.spans.lt_of_ne_nil x.runs_ne_nil

lemma bounds : 0 ≤ x.first ∧ x.first < x.stop ∧ x.stop ≤ clusters :=
  ⟨x.first_nonneg, x.first_lt_stop, x.stop_le⟩

lemma stop_isS64 : IsS64 x.stop :=
  expandPairs_vcn_isS64 x.expands x.attr.inRange.1

/-- The size in the base extent is the number of clusters of the attribute. -/
lemma maxCluster_eq (hbase : x.first = 0) : maxCluster vol x.attr = clusters - 1 := by
  have hbounds := x.bounds
  have hsize := x.allocated hbase
  rw [maxCluster, hsize, clusters_of_allocatedSize vol (by omega) (hsize ▸ x.attr.inRange.2.2)]

lemma clusters_isS64 (hbase : x.first = 0) : IsS64 clusters := by
  have hbounds := x.bounds
  have hmax := x.maxCluster_eq hbase
  have hnonneg : 0 ≤ maxCluster vol x.attr := by omega
  have hend := maxCluster_add_one_isS64 hnonneg
  rwa [hmax, sub_add_cancel] at hend

lemma closeRunlist_ok {attr : AttrRecord} (hagree : s64 (s.vcn - 1) = attr.highestVcn)
    (hmax : attr.lowestVcn = 0 → attr.highestVcn ≤ maxCluster vol attr) :
    ∃ rl, closeRunlist vol attr s = .ok rl := by
  unfold closeRunlist
  rw [if_neg (fun hbad => hbad.2 hagree)]
  split
  next hbase =>
    have hle := hmax hbase
    unfold maxCluster at hle
    rw [if_neg (by omega)]
    split <;> exact ⟨_, rfl⟩
  · exact ⟨_, rfl⟩

lemma mappingPairsDecompress_eq :
    mappingPairsDecompress vol x.attr =
      .ok (unmappedBefore x.first ++ x.runs ++ closing vol x.attr x.stop) := by
  have hone := @unmappedBefore_length_le x.first
  have hcount := x.count_lt
  obtain ⟨hlow, hlt, hle⟩ := x.bounds
  have hstop := isS64_iff.mp x.stop_isS64
  have hshort : (unmappedBefore x.first).length + x.runs.length < 65535 := by
    unfold runs
    omega
  obtain ⟨hloop, hbuf⟩ := decodeLoop_initial x.expands (hshort.trans (by norm_num))
  set s : DecodeState :=
    { buf := x.expansion.buf, vcn := x.stop, lcn := x.expansion.lcn,
      rl := unmappedBefore x.first ++ x.runs,
      rlpos := UInt16.ofNat ((unmappedBefore x.first).length + x.runs.length) }
  have hagree : s64 (s.vcn - 1) = x.attr.highestVcn := by
    rw [x.highest_eq]
    apply s64_of_isS64
    change -9223372036854775808 ≤ x.stop - 1 ∧ x.stop - 1 < 9223372036854775808
    omega
  have hmax : x.attr.lowestVcn = 0 → x.attr.highestVcn ≤ maxCluster vol x.attr := by
    intro hbase
    rw [x.maxCluster_eq hbase, x.highest_eq]
    exact Int.sub_le_sub_right hle 1
  obtain ⟨rl, hclose⟩ := closeRunlist_ok hagree hmax
  have hpos : s.rlpos.toNat = s.rl.length := by
    rw [UInt16.toNat_ofNat', Nat.mod_eq_of_lt (hshort.trans (by norm_num)), length_append]
  have hroom : s.rl.length + (if MoreToFollow vol x.attr then 1 else 0) < 65536 := by
    rw [length_append]
    split <;> omega
  have hrl :=
    closeRunlist_append hclose hpos hroom
  have hvalid : ¬ (x.attr.nonResident = false ∨ x.attr.lowestVcn < 0) := by
    rw [x.nonResident]
    simpa using x.first_nonneg
  rw [mappingPairsDecompress, if_neg hvalid, if_neg (not_lt.mpr x.offset_le), hloop]
  simp only [bind, Except.bind]
  rw [if_neg (not_le.mpr hbuf), ← hrl]
  exact hclose

def source (x : Extent vol clusters) : SourceRunlist where
  lead := unmappedBefore x.first
  runs := x.runs
  stop := { vcn := x.stop, lcn := lcnRlNotMapped, length := 0 }
  slack := []
  start := 0
  first := x.first
  last := x.stop
  start_nonneg := le_rfl
  lead_spans := unmappedBefore_spans x.first_nonneg
  lead_unmapped := by
    intro e he
    unfold unmappedBefore at he
    split at he
    · cases he
    · rw [mem_singleton.mp he]
  mapped := x.mapped
  runs_ne_nil := x.runs_ne_nil
  stop_eq := rfl
  last_isS64 := x.stop_isS64
  lcn_inRange := x.lcn_inRange

lemma decompress_source (hx : x.first ≠ 0) :
    mappingPairsDecompress vol x.attr = .ok x.source.cells := by
  have hlast : ¬ MoreToFollow vol x.attr := fun hmore => hx hmore.1
  rw [x.mappingPairsDecompress_eq, closing, if_neg hlast, extentEnd_other hx, append_assoc]
  rfl

/-- A base extent that is followed by others and has more than one cluster. -/
lemma decompress_base (hbase : x.first = 0) (hhigh : x.attr.highestVcn ≠ 0)
    (hmore : x.stop < clusters) :
    mappingPairsDecompress vol x.attr =
      .ok (x.runs ++ [{ vcn := x.stop, lcn := lcnRlNotMapped, length := clusters - x.stop },
        attributeEnd clusters]) := by
  have hhighest : x.attr.highestVcn = x.stop - 1 := x.highest_eq
  have hmax := x.maxCluster_eq hbase
  have hfollow : MoreToFollow vol x.attr := ⟨hbase, hhigh, by omega⟩
  have hlength : (unmappedAfter vol x.attr x.stop).length = clusters - x.stop := by
    simp only [unmappedAfter]
    omega
  have hgap : unmappedAfter vol x.attr x.stop =
      { vcn := x.stop, lcn := lcnRlNotMapped, length := clusters - x.stop } := by
    rw [← hlength]
    rfl
  have hsum : s64 (x.stop + (clusters - x.stop)) = clusters := by
    rw [add_sub_cancel]
    exact s64_of_isS64 (x.clusters_isS64 hbase)
  rw [x.mappingPairsDecompress_eq, closing, if_pos hfollow, hlength, hsum, extentEnd_base hbase,
    hgap, hbase]
  rfl

/-- A base extent that has one cluster only, or all clusters. -/
lemma decompress_whole (hbase : x.first = 0) (hwhole : x.attr.highestVcn = 0 ∨ x.stop = clusters) :
    mappingPairsDecompress vol x.attr = .ok (x.runs ++ [attributeEnd x.stop]) := by
  have hhighest : x.attr.highestVcn = x.stop - 1 := x.highest_eq
  have hmax := x.maxCluster_eq hbase
  have hlast : ¬ MoreToFollow vol x.attr := by
    rintro ⟨_, hhigh, hless⟩
    omega
  rw [x.mappingPairsDecompress_eq, closing, if_neg hlast, extentEnd_base hbase, hbase]
  rfl

end Extent

/-! ## Extents that make up an attribute -/

section Order

/-- The extents follow each other from cluster `a` up to cluster `b`. -/
def Partition : Int → List (Extent vol clusters) → Int → Prop
  | a, [], b => a = b
  | a, x :: rest, b => x.first = a ∧ Partition x.stop rest b

variable {exts todo : List (Extent vol clusters)} {heap : RunlistHeap}

lemma Partition.chain (hpart : Partition a exts b) : Chain a (exts.flatMap Extent.runs) b := by
  induction exts generalizing a with
  | nil => exact hpart
  | cons x rest ih =>
    obtain ⟨rfl, hrest⟩ := hpart
    exact x.mapped.append (ih hrest)

lemma Partition.exists_contains (hpart : Partition a exts b) (ha : a ≤ vcn) (hb : vcn < b) :
    ∃ x ∈ exts, x.Contains vcn := by
  induction exts generalizing a with
  | nil =>
    have hab : a = b := hpart
    omega
  | cons x rest ih =>
    obtain ⟨rfl, hrest⟩ := hpart
    by_cases hx : vcn < x.stop
    · exact ⟨x, mem_cons_self, ha, hx⟩
    · obtain ⟨y, hy, hcontains⟩ := ih hrest (by omega)
      exact ⟨y, mem_cons_of_mem _ hy, hcontains⟩

lemma Partition.start_le (hpart : Partition a exts b) : ∀ x ∈ exts, a ≤ x.first := by
  induction exts generalizing a with
  | nil => simp
  | cons x rest ih =>
    obtain ⟨rfl, hrest⟩ := hpart
    have hlt := x.first_lt_stop
    intro y hy
    rcases mem_cons.mp hy with rfl | hy
    · exact le_rfl
    · have := ih hrest y hy
      omega

/-- Two extents without a common cluster. -/
def SharesNone (x y : Extent vol clusters) : Prop := ∀ vcn, ¬ (x.Contains vcn ∧ y.Contains vcn)

lemma Partition.pairwise (hpart : Partition a exts b) : exts.Pairwise SharesNone := by
  induction exts generalizing a with
  | nil => exact List.Pairwise.nil
  | cons x rest ih =>
    obtain ⟨rfl, hrest⟩ := hpart
    refine pairwise_cons.mpr ⟨?_, ih hrest⟩
    rintro y hy vcn ⟨hx, hy'⟩
    have := hrest.start_le y hy
    have := hx.2
    have := hy'.1
    omega

lemma Partition.lcnAt_eq (hpart : Partition a exts b) (hx : x ∈ exts)
    (hcontains : x.Contains vcn) : lcnAt (exts.flatMap Extent.runs) vcn = lcnAt x.runs vcn := by
  induction exts generalizing a with
  | nil => cases hx
  | cons y rest ih =>
    obtain ⟨rfl, hrest⟩ := hpart
    rw [flatMap_cons, lcnAt_append]
    rcases mem_cons.mp hx with rfl | htail
    · obtain ⟨lcn, hlcn⟩ := isSome_iff_exists.mp (x.mapped.lcnAt_isSome hcontains)
      change (lcnAt x.expansion.runs vcn).or _ = lcnAt x.expansion.runs vcn
      rw [hlcn, some_or]
    · have hstart := hrest.start_le x htail
      have hge : y.stop ≤ vcn := hstart.trans hcontains.1
      have hnone : lcnAt y.runs vcn = none := y.mapped.lcnAt_eq_none (.inr hge)
      rw [hnone]
      exact ih hrest htail

def Free (todo : List (Extent vol clusters)) (vcn : Int) : Prop := ∃ x ∈ todo, x.Contains vcn

lemma free_cons : Free (x :: todo) vcn ↔ x.Contains vcn ∨ Free todo vcn := by
  simp [Free]

def Found (truth : Int → Option Int) (todo : List (Extent vol clusters)) (rl : PartialRunlist) :
    Prop :=
  ∀ vcn, 0 ≤ vcn → vcn < clusters → ¬ Free todo vcn → lcnAt rl.runs vcn = truth vcn

/-- `ntfs_mapping_pairs_decompress` for one extent after the other. -/
def decodeExtents (heap : RunlistHeap) (vol : Volume) :
    Option (List RunlistElement) → List AttrRecord → Except Failure (Option (List RunlistElement))
  | rl, [] => .ok rl
  | rl, attr :: rest => do
    let rl ← mappingPairsDecompressInto heap vol attr rl
    decodeExtents heap vol (some rl) rest

lemma decodeExtents_cons (hdecode : mappingPairsDecompressInto heap vol attr rl = .ok rl') :
    decodeExtents heap vol rl (attr :: rest) = decodeExtents heap vol (some rl') rest := by
  simp only [decodeExtents, hdecode, bind, Except.bind]

lemma mappingPairsDecompressInto_eq (hrl : mappingPairsDecompress vol attr = .ok rl)
    (hmerge : runlistsMerge heap (some oldRl) (some rl) = .ok (some merged)) :
    mappingPairsDecompressInto heap vol attr (some oldRl) = .ok merged := by
  simp only [mappingPairsDecompressInto, hrl, bind, Except.bind, hmerge, pure, Except.pure]

lemma Pending.mono (hpending : Pending clusters free rl) (hsub : ∀ vcn, free' vcn → free vcn) :
    Pending clusters free' rl :=
  ⟨hpending.separated, hpending.stop_le, hpending.last_mapped,
    fun vcn hfree => hpending.unmapped vcn (hsub vcn hfree)⟩

lemma free_of_pairwise (hpair : (x :: todo).Pairwise SharesNone) (hfree : Free todo vcn) :
    Free (x :: todo) vcn ∧ ¬ x.Contains vcn := by
  refine ⟨free_cons.mpr (.inr hfree), fun hx => ?_⟩
  obtain ⟨y, hy, hcontains⟩ := hfree
  exact (pairwise_cons.mp hpair).1 y hy vcn ⟨hx, hcontains⟩

section Steps

variable {drl : PartialRunlist}

/-- The extents share no cluster, and `truth` is where the clusters of the
attribute are. -/
structure Describes (truth : Int → Option Int) (order : List (Extent vol clusters)) : Prop where
  pairwise : order.Pairwise SharesNone
  truth_eq : ∀ x ∈ order, ∀ vcn, x.Contains vcn → truth vcn = lcnAt x.runs vcn
  truth_isSome : ∀ vcn, 0 ≤ vcn → vcn < clusters → (truth vcn).isSome

lemma Describes.tail (hdesc : Describes truth (x :: todo)) : Describes truth todo :=
  ⟨(pairwise_cons.mp hdesc.pairwise).2,
    fun y hy => hdesc.truth_eq y (mem_cons_of_mem _ hy), hdesc.truth_isSome⟩

lemma Describes.truth_self (hdesc : Describes truth (x :: todo)) (hx : x.Contains vcn) :
    truth vcn = lcnAt x.runs vcn :=
  hdesc.truth_eq x mem_cons_self vcn hx

section

variable (hgrant : heap.Ample)
include hgrant

/-- An extent after the base extent is added. -/
lemma decode_other (hdesc : Describes truth (x :: todo)) (hx : x.first ≠ 0)
    (hpending : Pending clusters (Free (x :: todo)) drl) :
    ∃ out : PartialRunlist,
      mappingPairsDecompressInto heap vol x.attr (some drl.cells) = .ok out.cells ∧
        Pending clusters (Free todo) out ∧ out.stop.lcn = drl.stop.lcn ∧
          (Found truth (x :: todo) drl → Found truth todo out) := by
  have hplace : Mergeable drl x.source := by
    apply hpending.mergeable x.stop_le
    intro vcn hge hlt
    exact free_cons.mpr (.inl ⟨hge, hlt⟩)
  obtain ⟨out, hmerge, hmerged⟩ := runlistsMerge_mergeable hgrant drl x.source hplace
  refine ⟨out, mappingPairsDecompressInto_eq (x.decompress_source hx) hmerge, ?_,
    hmerged.stop_lcn, ?_⟩
  · exact (hpending.merge x.stop_le hmerged).mono fun vcn => free_of_pairwise hdesc.pairwise
  · intro hfound vcn hge hlt hfree
    rw [hmerged.lcnAt_eq]
    split
    next hin => exact (hdesc.truth_self hin).symm
    next hout =>
      have hnot : ¬ Free (x :: todo) vcn := fun h => (free_cons.mp h).elim hout hfree
      obtain ⟨lcn, hlcn⟩ := isSome_iff_exists.mp (hdesc.truth_isSome vcn hge hlt)
      rw [hfound vcn hge hlt hnot, hlcn, some_or]

/-- All extents of a list without the base extent are added. -/
lemma decode_others (htodo : todo = now ++ later) (hdesc : Describes truth todo)
    (hnow : ∀ x ∈ now, x.first ≠ 0) (hpending : Pending clusters (Free todo) drl)
    (rest : List AttrRecord) :
    ∃ out : PartialRunlist,
      decodeExtents heap vol (some drl.cells) (now.map Extent.attr ++ rest) =
          decodeExtents heap vol (some out.cells) rest ∧
        Pending clusters (Free later) out ∧ out.stop.lcn = drl.stop.lcn ∧
          (Found truth todo drl → Found truth later out) := by
  subst htodo
  induction now generalizing drl with
  | nil => exact ⟨drl, rfl, hpending, rfl, id⟩
  | cons x now ih =>
    obtain ⟨mid, hdecode, hmid, hlcn, hfound⟩ := decode_other hgrant hdesc
      (hnow x mem_cons_self) hpending
    obtain ⟨out, hrest, hout, hlcn', hfound'⟩ := ih
      (fun y hy => hnow y (mem_cons_of_mem _ hy)) hdesc.tail hmid
    refine ⟨out, ?_, hout, hlcn'.trans hlcn, hfound' ∘ hfound⟩
    rw [map_cons, cons_append, decodeExtents_cons hdecode]
    exact hrest

end

lemma Describes.append_right (hdesc : Describes truth (before ++ todo)) : Describes truth todo := by
  induction before with
  | nil => exact hdesc
  | cons y before ih => exact ih hdesc.tail

lemma unmappedGap_zero (ha : 0 ≤ a) : unmappedGap 0 a = unmappedBefore a := by
  rcases eq_or_lt_of_le ha with rfl | hlt
  · rfl
  · rw [unmappedGap_of_lt hlt, unmappedBefore, if_neg (by omega), sub_zero]

/-- A runlist that has the clusters of one extent only, up to `stop`. -/
lemma exists_alone (hdesc : Describes truth (x :: todo))
    (hall : ∀ vcn, 0 ≤ vcn → vcn < clusters → Free (x :: todo) vcn) (hle : x.stop ≤ stop)
    (hend : stop = clusters ∨ stop = x.stop) (hfits : IsS64 stop)
    (hlcn : lcn = lcnEnoent ∨ lcn = lcnRlNotMapped) :
    ∃ out : PartialRunlist, out.cells = unmappedBefore x.first ++ (x.runs ++
        (unmappedGap x.stop stop ++ [{ vcn := stop, lcn := lcn, length := 0 }])) ∧
      out.stop.lcn = lcn ∧ Pending clusters (Free todo) out ∧ Found truth todo out := by
  obtain ⟨hfirst, hpos, hclusters⟩ := x.bounds
  have hmapped : Chain x.first x.runs x.stop := x.mapped
  have hnonneg : 0 ≤ x.stop := by omega
  have hfirstFits : IsS64 x.first := x.attr.inRange.1
  let out : PartialRunlist :=
    { runs := unmappedGap 0 x.first ++ (x.runs ++ unmappedGap x.stop stop)
      stop := { vcn := stop, lcn := lcn, length := 0 }
      slack := []
      spans := (spans_cut le_rfl hfirst).append (hmapped.spans.append (spans_cut le_rfl hle))
      stop_length := rfl
      stop_lcn := hlcn
      end_isS64 := hfits
      lcn_inRange := by
        intro e he
        simp only [mem_append] at he
        rcases he with he | he | he
        · exact cut_lcnInRange lcnRlNotMapped_neg le_rfl hfirstFits e he
        · exact x.lcn_inRange e he
        · exact cut_lcnInRange lcnRlNotMapped_neg hnonneg hfits e he }
  have hat : ∀ vcn, lcnAt out.runs vcn = (lcnAt (unmappedGap 0 x.first) vcn).or
      ((lcnAt x.runs vcn).or (lcnAt (unmappedGap x.stop stop) vcn)) := by
    intro vcn
    rw [← lcnAt_append, ← lcnAt_append]
  have hin : ∀ vcn, x.Contains vcn → lcnAt out.runs vcn = lcnAt x.runs vcn := by
    intro vcn hin
    obtain ⟨c, hc⟩ := isSome_iff_exists.mp (hmapped.lcnAt_isSome hin)
    have hge := hin.1
    rw [hat, unmappedGap, lcnAt_cut lcnRlNotMapped_neg, if_neg (by omega), none_or, hc,
      some_or]
  refine ⟨out, ?_, rfl, ⟨?_, by change stop ≤ clusters; omega, ?_, ?_⟩, ?_⟩
  · rw [PartialRunlist.cells, ← unmappedGap_zero hfirst]
    simp only [out, append_assoc]
  · refine isChain_append.mpr ⟨separated_cut _, isChain_append.mpr
      ⟨separated_of_hole_le hmapped.hole_le, separated_cut _, fun y hy _ _ => ?_⟩,
      fun _ _ y hy => ?_⟩
    · exact apart_of_hole_le_left (hmapped.hole_le y (mem_of_getLast? hy))
    · -- The runs of the extent are not empty, so the next run is mapped.
      have hne : x.runs ≠ [] := x.runs_ne_nil
      rw [head?_append_of_ne_nil _ hne] at hy
      exact apart_of_hole_le_right (hmapped.hole_le y (mem_of_head? hy))
  · intro hlt
    change stop < clusters at hlt
    change lcnAt out.runs (stop - 1) ≠ _
    rw [hin _ ⟨by omega, by omega⟩]
    exact hmapped.lcnAt_ne_notMapped
  · intro vcn hfree
    have hout := (free_of_pairwise hdesc.pairwise hfree).2
    have hnone : lcnAt x.runs vcn = none := hmapped.lcnAt_eq_none (by
      unfold Extent.Contains at hout
      omega)
    rw [hat, hnone, unmappedGap, unmappedGap, lcnAt_cut lcnRlNotMapped_neg,
      lcnAt_cut lcnRlNotMapped_neg]
    split
    · rfl
    · split <;> rfl
  · intro vcn hge hlt hnot
    have hx : x.Contains vcn := (free_cons.mp (hall vcn hge hlt)).resolve_right hnot
    rw [hin vcn hx, hdesc.truth_self hx]

lemma decode_first (hdesc : Describes truth (x :: todo))
    (hall : ∀ vcn, 0 ≤ vcn → vcn < clusters → Free (x :: todo) vcn) :
    ∃ out : PartialRunlist, mappingPairsDecompressInto heap vol x.attr none = .ok out.cells ∧
      out.stop.lcn = (if x.first = 0 then lcnEnoent else lcnRlNotMapped) ∧
        Pending clusters (Free todo) out ∧ Found truth todo out := by
  have hle : x.stop ≤ clusters := x.stop_le
  by_cases hx : x.first = 0
  · rw [if_pos hx]
    by_cases hwhole : x.attr.highestVcn = 0 ∨ x.stop = clusters
    · obtain ⟨out, hcells, htracks⟩ := exists_alone hdesc hall le_rfl (.inr rfl) x.stop_isS64
        (.inl rfl)
      refine ⟨out, ?_, htracks⟩
      rw [hcells, hx, unmappedGap_self]
      exact x.decompress_whole hx hwhole
    · rw [not_or] at hwhole
      have hlt : x.stop < clusters := lt_of_le_of_ne hle hwhole.2
      obtain ⟨out, hcells, htracks⟩ := exists_alone hdesc hall hle (.inl rfl)
        (x.clusters_isS64 hx) (.inl rfl)
      refine ⟨out, ?_, htracks⟩
      rw [hcells, hx, unmappedGap_of_lt hlt]
      exact x.decompress_base hx hwhole.1 hlt
  · rw [if_neg hx]
    obtain ⟨out, hcells, htracks⟩ := exists_alone hdesc hall le_rfl (.inr rfl) x.stop_isS64
      (.inr rfl)
    refine ⟨out, ?_, htracks⟩
    rw [hcells, unmappedGap_self]
    exact x.decompress_source hx

def Joinable (base next : Extent vol clusters) : Prop :=
  ∃ l f, base.runs = [l] ∧ next.runs.head? = some f ∧ Adjacent l f

section Base

lemma Describes.not_free (hdesc : Describes truth (before ++ todo)) (hy : y ∈ before)
    (hcontains : y.Contains vcn) : ¬ Free todo vcn := by
  rintro ⟨z, hz, hcontains'⟩
  exact (pairwise_append.mp hdesc.pairwise).2.2 y hy z hz vcn ⟨hcontains, hcontains'⟩

/-- The clusters of an extent that was decoded are found. -/
lemma Found.at (hfound : Found truth todo drl) (hdesc : Describes truth (before ++ todo))
    (hy : y ∈ before) (hcontains : y.Contains vcn) : lcnAt drl.runs vcn = lcnAt y.runs vcn := by
  have hge : 0 ≤ vcn := y.first_nonneg.trans hcontains.1
  have hlt : vcn < clusters := hcontains.2.trans_le y.stop_le
  rw [hfound vcn hge hlt (hdesc.not_free hy hcontains)]
  exact hdesc.truth_eq y (mem_append_left _ hy) vcn hcontains

lemma Extent.lcnAt_first (y : Extent vol clusters) :
    ∃ f, y.runs.head? = some f ∧ f.vcn = y.first ∧ lcnAt y.runs y.first = some f.lcn ∧
      lcnHole ≤ f.lcn := by
  have hmapped : Chain y.first y.runs y.stop := y.mapped
  have hne : y.runs ≠ [] := y.runs_ne_nil
  cases hruns : y.runs with
  | nil => exact absurd hruns hne
  | cons f rest =>
    rw [hruns] at hmapped
    obtain ⟨hvcn, hpos, hlcn, _⟩ := hmapped
    refine ⟨f, rfl, hvcn, ?_, hlcn⟩
    rw [lcnAt, if_pos (by omega), RunlistElement.lcnOf, hvcn]
    split <;> simp

/-- Before the base extent is added, an unmapped run has its place, and mapped runs
follow. -/
lemma exists_front (hdesc : Describes truth (before ++ x :: todo)) (hx : x.first = 0)
    (hpending : Pending clusters (Free (x :: todo)) drl) (hfound : Found truth (x :: todo) drl)
    (hbefore : before ≠ []) :
    ∃ e post, drl.runs = e :: post ∧ e.lcn = lcnRlNotMapped ∧ x.stop ≤ e.stopVcn ∧ post ≠ [] := by
  obtain ⟨y, before', rfl⟩ := exists_cons_of_ne_nil hbefore
  obtain ⟨f, _, hfvcn, hat, hlcn⟩ := y.lcnAt_first
  have hpos := x.first_lt_stop
  have hy : y.Contains y.first := ⟨le_rfl, y.first_lt_stop⟩
  rw [← hfound.at hdesc mem_cons_self hy] at hat
  have hstop : 0 < drl.stop.vcn := by
    by_contra hend
    have hnonneg : 0 ≤ y.first := y.first_nonneg
    rw [drl.spans.lcnAt_eq_none (.inr (by omega))] at hat
    cases hat
  have hspans := drl.spans
  rcases hpending.place le_rfl (hx ▸ hpos) x.stop_le
    (fun vcn hge hlt => free_cons.mpr (.inl ⟨hx ▸ hge, hlt⟩)) with ⟨e, he, hN, hvcn, hle⟩ | hend
  · cases hruns : drl.runs with
    | nil =>
      rw [hruns] at he
      cases he
    | cons e' post =>
      rw [hruns] at he hspans hat
      obtain ⟨hvcn', hpos', _, hrest⟩ := hspans
      have hsame : e = e' := by
        rcases mem_cons.mp he with heq | htail
        · exact heq
        · have := hrest.start_le e htail
          omega
      subst hsame
      refine ⟨e, post, rfl, hN, hle, ?_⟩
      rintro rfl
      rw [lcnAt] at hat
      split at hat
      next hin =>
        rw [(RunlistElement.lcnOf_eq_notMapped hin.1).mpr hN] at hat
        rw [← some.inj hat] at hlcn
        exact absurd hlcn (by decide)
      · cases hat
  · omega

lemma lcnAt_second {tail : List RunlistElement} (hruns : drl.runs = e :: g :: tail) :
    g.vcn = e.stopVcn ∧ lcnAt drl.runs e.stopVcn = some g.lcn := by
  have hspans := drl.spans
  rw [hruns] at hspans ⊢
  obtain ⟨hvcn, hpos, _, hgvcn, hgpos, _⟩ := hspans
  have hstop : g.vcn = e.stopVcn := by
    unfold RunlistElement.stopVcn
    omega
  rw [lcnAt, if_neg (by omega), lcnAt, if_pos (by omega), RunlistElement.lcnOf, ← hstop]
  split <;> simp

/-- The driver joins a base extent of one run to the run after it exactly if the
extent with that run was decoded before. -/
lemma joins_iff (hdesc : Describes truth (before ++ x :: todo)) (hx : x.first = 0)
    (hfound : Found truth (x :: todo) drl)
    (hall : ∀ vcn, 0 ≤ vcn → vcn < clusters → Free (before ++ x :: todo) vcn)
    (hpending : Pending clusters (Free (x :: todo)) drl) (hruns : drl.runs = e :: post)
    (hlcn : e.lcn = lcnRlNotMapped) (hle : x.stop ≤ e.stopVcn) (hpost : post ≠ [])
    (hxruns : x.runs = init ++ [l]) :
    (e.stopVcn = x.stop ∧ init = [] ∧ joinsRight l (post ++ [drl.stop]) = true) ↔
      ∃ y ∈ before, Joinable x y := by
  have hmapped : Chain x.first x.runs x.stop := x.mapped
  rw [hxruns] at hmapped
  have hlstop := hmapped.last_stopVcn
  obtain ⟨g, tail, rfl⟩ := exists_cons_of_ne_nil hpost
  obtain ⟨hgvcn, hat⟩ := lcnAt_second hruns
  have hspans := drl.spans
  rw [hruns] at hspans
  have hvcn : e.vcn = 0 := hspans.1
  have hxpos := x.first_lt_stop
  constructor
  · rintro ⟨hstop, rfl, hjoin⟩
    have hadj : Adjacent l g := adjacent_of_mergeable hjoin (.inl (hmapped.hole_le l (by simp)))
    rw [hstop] at hat
    have hshort : x.stop < clusters := by
      have hin := hspans.stop_le g (by simp)
      have hpos := hspans.length_pos g (by simp)
      have hend := hpending.stop_le
      omega
    have hnot : ¬ Free (x :: todo) x.stop := by
      intro hfree
      have hunmapped := hpending.unmapped _ hfree
      rw [hat, getD_some] at hunmapped
      have hge := hadj.hole_le_right
      rw [hunmapped] at hge
      exact absurd hge (by decide)
    obtain ⟨y, hy, hcontains⟩ := hall x.stop (by omega) hshort
    have hybefore : y ∈ before := by
      rcases mem_append.mp hy with hy | hy
      · exact hy
      · exact absurd ⟨y, hy, hcontains⟩ hnot
    -- The extent starts right after the base extent, with which it shares no cluster.
    have hyfirst : y.first = x.stop := by
      by_contra hne
      have hlow := hcontains.1
      have hnonneg : 0 ≤ y.first := y.first_nonneg
      refine hdesc.not_free hybefore ⟨le_rfl, y.first_lt_stop⟩ (free_cons.mpr (.inl ?_))
      exact ⟨by omega, by omega⟩
    obtain ⟨f, hhead, hfvcn, hfat, _⟩ := y.lcnAt_first
    rw [← hfound.at hdesc hybefore ⟨le_rfl, y.first_lt_stop⟩, hyfirst, hat] at hfat
    refine ⟨y, hybefore, l, f, hxruns, hhead, hadj.congr_right ?_ (some.inj hfat).symm⟩
    rw [hfvcn, hyfirst, hgvcn, hstop]
  · rintro ⟨y, hy, l', f, hsingle, hhead, hadj⟩
    obtain ⟨rfl, rfl⟩ : init = [] ∧ l = l' := by
      rw [hxruns] at hsingle
      simpa [append_eq_singleton_iff] using hsingle
    obtain ⟨f', hhead', hfvcn, hfat, hmappedF⟩ := y.lcnAt_first
    obtain rfl : f = f' := some.inj (hhead.symm.trans hhead')
    have hyfirst : y.first = x.stop := by
      rw [← hfvcn, ← hadj.1, hlstop]
    rw [← hfound.at hdesc hy ⟨le_rfl, y.first_lt_stop⟩, hyfirst] at hfat
    have hstop : e.stopVcn = x.stop := by
      by_contra hne
      have hin : e.vcn ≤ x.stop ∧ x.stop < e.vcn + e.length :=
        ⟨hvcn.trans_le (hx ▸ hxpos.le), lt_of_le_of_ne hle (Ne.symm hne)⟩
      rw [hruns, lcnAt, if_pos hin, (RunlistElement.lcnOf_eq_notMapped hin.1).mpr hlcn] at hfat
      rw [← some.inj hfat] at hmappedF
      exact absurd hmappedF (by decide)
    rw [hstop, hfat] at hat
    refine ⟨hstop, rfl, (hadj.congr_right ?_ (some.inj hat).symm).mergeable⟩
    rw [hgvcn, hstop, ← hyfirst, hfvcn]

lemma Chain.eq_singleton (hchain : Chain 0 runs 1) (hne : runs ≠ []) : ∃ l, runs = [l] := by
  cases runs with
  | nil => exact absurd rfl hne
  | cons l rest =>
    obtain ⟨_, hpos, _, hrest⟩ := hchain
    cases rest with
    | nil => exact ⟨l, rfl⟩
    | cons f rest =>
      have hlt := hrest.spans.lt_of_ne_nil (by simp)
      omega

def KeepsEnd (before : List (Extent vol clusters)) (base : Extent vol clusters) : Prop :=
  base.attr.highestVcn ≠ 0 ∧ ∀ y ∈ before, ¬ Joinable base y

/-- The base extent is added to a runlist of other extents. -/
lemma decode_base (hgrant : heap.Ample)
    (hdesc : Describes truth (before ++ x :: todo)) (hx : x.first = 0)
    (hpending : Pending clusters (Free (x :: todo)) drl) (hfound : Found truth (x :: todo) drl)
    (hstop : drl.stop.lcn = lcnRlNotMapped) (hbefore : before ≠ [])
    (hall : ∀ vcn, 0 ≤ vcn → vcn < clusters → Free (before ++ x :: todo) vcn) :
    ∃ out : PartialRunlist,
      mappingPairsDecompressInto heap vol x.attr (some drl.cells) = .ok out.cells ∧
        Pending clusters (Free todo) out ∧
          ((KeepsEnd before x ∧ Found truth todo out ∧ out.stop.lcn = lcnEnoent) ∨
            (¬ KeepsEnd before x ∧ out.stop.lcn = lcnRlNotMapped)) := by
  obtain ⟨e, post, hruns, hlcn, hle, hpost⟩ := exists_front hdesc hx hpending hfound hbefore
  have hmapped : Chain 0 x.runs x.stop := hx ▸ x.mapped
  have hhighest : x.attr.highestVcn = x.stop - 1 := x.highest_eq
  have hsub : ∀ vcn, Free todo vcn → Free (x :: todo) vcn ∧ ¬ (0 ≤ vcn ∧ vcn < x.stop) := by
    intro vcn hfree
    have hfree' := free_of_pairwise hdesc.append_right.pairwise hfree
    rw [Extent.Contains, hx] at hfree'
    exact hfree'
  by_cases hone : x.attr.highestVcn = 0
  · have hstopOne : x.stop = 1 := by omega
    rw [hstopOne] at hmapped hsub
    obtain ⟨l, hl⟩ := hmapped.eq_singleton x.runs_ne_nil
    have hrange : LcnInRange l := x.lcn_inRange l (by
      change l ∈ x.runs
      simp [hl])
    rw [hl] at hmapped
    obtain ⟨out, hmerge, hout, hpending'⟩ := runlistsMerge_base_single hgrant hpending
      hruns hlcn hstop hmapped hrange hpost
    have hdecode := x.decompress_whole hx (.inl hone)
    rw [hl, hstopOne] at hdecode
    exact ⟨out, mappingPairsDecompressInto_eq hdecode hmerge, hpending'.mono hsub,
      .inr ⟨fun hkeeps => hkeeps.1 hone, hout⟩⟩
  · rcases eq_nil_or_concat' x.runs with hnil | ⟨init, l, hxruns⟩
    · exact absurd hnil x.runs_ne_nil
    have hmore : x.stop < clusters := by
      obtain ⟨y, hy⟩ := exists_mem_of_ne_nil _ hbefore
      have hnot := hdesc.not_free hy ⟨le_rfl, y.first_lt_stop⟩
      rw [free_cons, Extent.Contains] at hnot
      have hbounds := y.bounds
      omega
    have hbase : BaseRuns init l x.stop clusters :=
      ⟨hxruns ▸ hmapped, hmore, x.clusters_isS64 hx, hxruns ▸ x.lcn_inRange⟩
    have hdecode : mappingPairsDecompress vol x.attr = .ok (baseCells init l x.stop clusters) := by
      rw [x.decompress_base hx hone hmore, hxruns, append_assoc]
      rfl
    have hjoins := joins_iff hdesc hx hfound hall hpending hruns hlcn hle hpost hxruns
    by_cases hjoined : e.stopVcn = x.stop ∧ init = [] ∧ joinsRight l (post ++ [drl.stop]) = true
    · obtain ⟨y, hy, hjoinable⟩ := hjoins.mp hjoined
      obtain ⟨hsame, rfl, hright⟩ := hjoined
      obtain ⟨out, hmerge, hout, hfront⟩ := runlistsMerge_base_joined hgrant hpending hruns hlcn
        hstop hbase hsame hright
      refine ⟨out, mappingPairsDecompressInto_eq hdecode hmerge, ?_, .inr ⟨?_, by rw [hout,
        hstop]⟩⟩
      · exact (hpending.front hbase.mapped hfront (.inr (by rw [hout]))).mono hsub
      · intro hkeeps
        exact hkeeps.2 y hy hjoinable
    · obtain ⟨out, hmerge, hout, hfront⟩ := runlistsMerge_base hgrant hbase hpending hruns hlcn hle
        hstop (fun hsame hinit => by
          by_contra hright
          exact hjoined ⟨hsame, hinit, by simpa using hright⟩)
      refine ⟨out, mappingPairsDecompressInto_eq hdecode hmerge, ?_,
        .inl ⟨⟨hone, fun y hy hjoinable => hjoined (hjoins.mpr ⟨y, hy, hjoinable⟩)⟩, ?_, ?_⟩⟩
      · exact (hpending.front hbase.mapped hfront (.inl (by rw [hout]; rfl))).mono hsub
      · intro vcn hge hlt hnot
        have hdesc' := hdesc.append_right
        rw [hfront.lcnAt_eq, ← hxruns]
        split
        next hin =>
          exact (hdesc'.truth_self ⟨hx.symm ▸ hin.1, hin.2⟩).symm
        next hout =>
          have hnot' : ¬ Free (x :: todo) vcn := by
            rw [free_cons, not_or, Extent.Contains, hx]
            exact ⟨hout, hnot⟩
          obtain ⟨lcn, hv⟩ := isSome_iff_exists.mp (hdesc.truth_isSome vcn hge hlt)
          rw [hfound vcn hge hlt hnot', hv, some_or]
      · rw [hout]
        rfl

end Base

end Steps

/-! ## Main result -/

/-- A lookup finds the runs of the extents, and the end of the attribute after
them. -/
def LooksUp (exts : List (Extent vol clusters)) (rl : PartialRunlist) : Prop :=
  ∀ vcn, 0 ≤ vcn → rlVcnToLcn (some rl.cells) vcn =
    (lcnAt (exts.flatMap Extent.runs) vcn).getD lcnEnoent

section

variable (hpart : Partition 0 exts clusters)
include hpart

lemma Partition.describes (hperm : order.Perm exts) :
    Describes (lcnAt (exts.flatMap Extent.runs)) order where
  pairwise := by
    refine (hperm.pairwise_iff ?_).mpr hpart.pairwise
    intro x y hxy vcn hboth
    exact hxy vcn hboth.symm
  truth_eq := by
    intro x hx vcn hcontains
    exact hpart.lcnAt_eq (hperm.mem_iff.mp hx) hcontains
  truth_isSome := by
    intro vcn hge hlt
    exact hpart.chain.lcnAt_isSome ⟨hge, hlt⟩

lemma Partition.free (hperm : order.Perm exts) :
    ∀ vcn, 0 ≤ vcn → vcn < clusters → Free order vcn := by
  intro vcn hge hlt
  obtain ⟨x, hx, hcontains⟩ := hpart.exists_contains hge hlt
  exact ⟨x, hperm.mem_iff.mpr hx, hcontains⟩

/-- There is exactly one base extent. -/
lemma Partition.exists_base (hperm : order.Perm exts) (hclusters : 0 < clusters) :
    ∃ before base after, order = before ++ base :: after ∧ base.first = 0 ∧
      (∀ x ∈ before, x.first ≠ 0) ∧ ∀ x ∈ after, x.first ≠ 0 := by
  obtain ⟨base, hmem, hcontains⟩ := hpart.free hperm 0 le_rfl hclusters
  have hbase : base.first = 0 := le_antisymm hcontains.1 base.first_nonneg
  obtain ⟨before, after, rfl⟩ := append_of_mem hmem
  have hdesc := hpart.describes hperm
  have hzero : ∀ x : Extent vol clusters, x.first = 0 → x.Contains 0 := by
    intro x hx
    have hlt := x.first_lt_stop
    exact ⟨hx.le, by omega⟩
  refine ⟨before, base, after, rfl, hbase, ?_, ?_⟩
  · intro x hx hfirst
    exact hdesc.not_free hx (hzero x hfirst) (free_cons.mpr (.inl hcontains))
  · intro x hx hfirst
    exact (free_of_pairwise hdesc.append_right.pairwise ⟨x, hx, hzero x hfirst⟩).2 hcontains

lemma looksUp_of_found (hle : rl.stop.vcn ≤ clusters)
    (hfound : Found (lcnAt (exts.flatMap Extent.runs)) ([] : List (Extent vol clusters)) rl)
    (hstop : rl.stop.lcn = lcnEnoent) : LooksUp exts rl := by
  intro vcn hge
  rw [rl.rlVcnToLcn_eq hge, hstop]
  by_cases hlt : vcn < clusters
  · rw [hfound vcn hge hlt (by simp [Free])]
  · rw [rl.spans.lcnAt_eq_none (.inr (by omega)), hpart.chain.lcnAt_eq_none (.inr (by omega))]

lemma not_looksUp (hle : rl.stop.vcn ≤ clusters) (hstop : rl.stop.lcn = lcnRlNotMapped) :
    ¬ LooksUp exts rl := by
  intro hlooks
  have hnonneg : 0 ≤ clusters := hpart.chain.le
  have hend := hlooks clusters hnonneg
  rw [rl.rlVcnToLcn_eq hnonneg, rl.spans.lcnAt_eq_none (.inr hle),
    hpart.chain.lcnAt_eq_none (.inr le_rfl), hstop] at hend
  exact absurd hend (by decide)

end

/-- Decoding the extents of an attribute in any order succeeds. The lookups are those
of the attribute exactly if the base extent comes first, or has more than one
cluster and is not a single run that continues in an extent decoded before it. -/
theorem decodeExtents_looksUp_iff (hgrant : ∀ n, heap.grants n = true)
    {exts order : List (Extent vol clusters)} (hclusters : 0 < clusters)
    (hpart : Partition 0 exts clusters) (hperm : order.Perm exts) :
    ∃ (rl : PartialRunlist) (before after : List (Extent vol clusters))
      (base : Extent vol clusters),
      decodeExtents heap vol none (order.map Extent.attr) = .ok (some rl.cells) ∧
        order = before ++ base :: after ∧ base.first = 0 ∧
          (LooksUp exts rl ↔ before = [] ∨ KeepsEnd before base) := by
  obtain ⟨before, base, after, rfl, hbase, hbefore, hafter⟩ := hpart.exists_base hperm hclusters
  have hdesc := hpart.describes hperm
  have hall := hpart.free hperm
  cases before with
  | nil =>
    obtain ⟨rl₀, hfirst, hlcn₀, hpending₀, hfound₀⟩ := decode_first hdesc hall
    rw [if_pos hbase] at hlcn₀
    obtain ⟨rl, hrest, hpending, hlcn, hfound⟩ := decode_others hgrant (append_nil after).symm
      hdesc.tail hafter hpending₀ []
    rw [append_nil] at hrest
    refine ⟨rl, [], after, base, ?_, rfl, hbase, ?_⟩
    · rw [nil_append, map_cons, decodeExtents_cons hfirst]
      exact hrest
    · have hlooks := looksUp_of_found hpart hpending.stop_le (hfound hfound₀)
        (hlcn.trans hlcn₀)
      exact ⟨fun _ => .inl rfl, fun _ => hlooks⟩
  | cons y ys =>
    obtain ⟨rl₀, hfirst, hlcn₀, hpending₀, hfound₀⟩ := decode_first hdesc hall
    rw [if_neg (hbefore y mem_cons_self)] at hlcn₀
    obtain ⟨rl₁, hrest₁, hpending₁, hlcn₁, hfound₁⟩ := decode_others hgrant rfl hdesc.tail
      (fun x hx => hbefore x (mem_cons_of_mem _ hx)) hpending₀
      ((base :: after).map Extent.attr)
    obtain ⟨rl₂, hdecode, hpending₂, hend⟩ := decode_base hgrant hdesc hbase hpending₁
      (hfound₁ hfound₀) (hlcn₁.trans hlcn₀) (by simp) hall
    obtain ⟨rl, hrest, hpending, hlcn, hfound⟩ := decode_others hgrant (append_nil after).symm
      hdesc.append_right.tail hafter hpending₂ []
    rw [append_nil] at hrest
    refine ⟨rl, y :: ys, after, base, ?_, rfl, hbase, ?_⟩
    · rw [cons_append, map_cons, decodeExtents_cons hfirst, map_append, hrest₁,
        map_cons, decodeExtents_cons hdecode]
      exact hrest
    · rcases hend with ⟨hkeeps, hfound₂, hstop⟩ | ⟨hlost, hstop⟩
      · have hlooks := looksUp_of_found hpart hpending.stop_le (hfound hfound₂)
          (hlcn.trans hstop)
        exact ⟨fun _ => .inr hkeeps, fun _ => hlooks⟩
      · have hnot := not_looksUp hpart hpending.stop_le (hlcn.trans hstop)
        refine ⟨fun hlooks => absurd hlooks hnot, fun hgood => ?_⟩
        rcases hgood with hnil | hkeeps
        · cases hnil
        · exact absurd hkeeps hlost

end Order

/-- The record of a base extent with the first two of three clusters. -/
def twoClustersRecord : AttrRecord := recordOf 0 1 12288 [0x11, 2, 100, 0, 0, 0, 0, 0]

def twoClusters : Extent volume31 3 where
  attr := twoClustersRecord
  expansion := { runs := [⟨0, 100, 2⟩], buf := 67, vcn := 2, lcn := 100 }
  nonResident := rfl
  offset_le := by decide +kernel
  expands := by decide +kernel
  first_nonneg := by decide +kernel
  mapped := by simp [Chain, lcnHole, twoClustersRecord, recordOf_lowestVcn]
  runs_ne_nil := by simp
  lcn_inRange := by simp [LcnInRange]
  count_lt := by decide
  highest_eq := recordOf_highestVcn (by decide)
  stop_le := by decide
  allocated := by decide +kernel

def lastClusterRecord (lcn : UInt8) : AttrRecord := recordOf 2 2 0 [0x11, 1, lcn, 0, 0, 0, 0, 0]

/-- The third cluster, at cluster 50 of the volume or, after the other two, at
cluster 102. -/
def lastCluster (lcn : UInt8) (hlcn : lcn = 50 ∨ lcn = 102) : Extent volume31 3 where
  attr := lastClusterRecord lcn
  expansion := { runs := [⟨2, lcn.toNat, 1⟩], buf := 67, vcn := 3, lcn := lcn.toNat }
  nonResident := rfl
  offset_le := by rcases hlcn with rfl | rfl <;> decide +kernel
  expands := by rcases hlcn with rfl | rfl <;> decide +kernel
  first_nonneg := by rcases hlcn with rfl | rfl <;> decide +kernel
  mapped := by
    rcases hlcn with rfl | rfl <;> simp [Chain, lcnHole, lastClusterRecord, recordOf_lowestVcn]
  runs_ne_nil := by simp
  lcn_inRange := by rcases hlcn with rfl | rfl <;> simp [LcnInRange]
  count_lt := by simp
  highest_eq := recordOf_highestVcn (by decide)
  stop_le := by simp
  allocated := by rcases hlcn with rfl | rfl <;> decide +kernel

theorem decodeExtents_looksUp_reversed :
    ∃ (rl : PartialRunlist) (before after : List (Extent volume31 3)) (base : Extent volume31 3),
      decodeExtents ampleHeap volume31 none
          [(lastCluster 50 (.inl rfl)).attr, twoClusters.attr] = .ok (some rl.cells) ∧
        [lastCluster 50 (.inl rfl), twoClusters] = before ++ base :: after ∧ base.first = 0 ∧
          (LooksUp [twoClusters, lastCluster 50 (.inl rfl)] rl ↔
            before = [] ∨ KeepsEnd before base) := by
  have hpart : Partition 0 [twoClusters, lastCluster 50 (.inl rfl)] 3 :=
    ⟨recordOf_lowestVcn (by decide), recordOf_lowestVcn (by decide), rfl⟩
  exact decodeExtents_looksUp_iff (fun _ => rfl) (by decide) hpart (List.Perm.swap _ _ [])

/-- Adjacent clusters, decoded from the last extent on: the end of the attribute is
reported as not mapped. With the base extent first it is found. -/
theorem decodeExtents_losesEnd :
    decodeExtents ampleHeap volume31 none
        [(lastCluster 102 (.inr rfl)).attr, twoClusters.attr] =
      .ok (some [⟨0, 100, 3⟩, ⟨3, lcnRlNotMapped, 0⟩, ⟨3, lcnEnoent, 0⟩]) ∧
    rlVcnToLcn (some [⟨0, 100, 3⟩, ⟨3, lcnRlNotMapped, 0⟩, ⟨3, lcnEnoent, 0⟩]) 3 = lcnRlNotMapped ∧
    decodeExtents ampleHeap volume31 none
        [twoClusters.attr, (lastCluster 102 (.inr rfl)).attr] =
      .ok (some [⟨0, 100, 3⟩, ⟨3, lcnEnoent, 0⟩, ⟨3, lcnEnoent, 0⟩]) ∧
    rlVcnToLcn (some [⟨0, 100, 3⟩, ⟨3, lcnEnoent, 0⟩, ⟨3, lcnEnoent, 0⟩]) 3 = lcnEnoent := by
  refine ⟨by decide +kernel, by decide +kernel, by decide +kernel, by decide +kernel⟩

end NtfsDxe
