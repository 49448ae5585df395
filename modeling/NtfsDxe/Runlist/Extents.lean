import NtfsDxe.Runlist.RoundTrip

/-! # Splitting a runlist over attribute extents

A buffer that is too small receives the mapping pairs of the runs that fit. The
array left in it is complete in itself, and the next extent starts at the run
reported as the first one not stored. A sequence of such builds describes the
runlist without loss, gap or overlap.
-/

namespace NtfsDxe

open Foundation List

/-- Every attribute record that starts at `startVcn` and holds `bytes` is
expanded to `runs`, by the driver's loop as long as its array index suffices. -/
def DecodesTo (bytes : Buffer) (startVcn : Int) (runs : List RunlistElement) : Prop :=
  ∀ attr : AttrRecord, attr.lowestVcn = startVcn →
    HoldsAt attr.mem attr.mappingPairsOffset bytes →
    attr.mappingPairsOffset + bytes.length ≤ attr.length →
    (∃ x, expandPairs attr attr.mappingPairsOffset startVcn 0 = .ok x ∧ x.runs = runs) ∧
    (runs.length < 65535 → ∃ s, decodeLoop attr (initialDecodeState attr) = .ok s ∧
      s.buf < attr.length ∧ s.rl = unmappedBefore startVcn ++ runs)

/-- The runs cover the clusters of `rl` from `startVcn` up to `stopVcn`, each
once, with the cluster numbers that a lookup in `rl` reports. -/
def PartOf (rl : MappedRunlist) (startVcn stopVcn : Int) (runs : List RunlistElement) : Prop :=
  Chain startVcn runs (max startVcn stopVcn) ∧
    ∀ vcn, lcnAt runs vcn =
      restrictTo startVcn stopVcn (fun vcn => some (rlVcnToLcn (some rl.elements) vcn)) vcn

/-- The end of a runlist that is cut at `cutVcn`. -/
def cutTerminator (cutVcn : Int) : RunlistElement :=
  { vcn := cutVcn, lcn := lcnEnoent, length := 0 }

/-- What one build leaves: the stored part, and the run from which the next
extent goes on. -/
structure BuildsExtent (vol : Volume) (rl : MappedRunlist) (startVcn : Int) (dst : Buffer)
    (built : BuildResult) (stop : List RunlistElement) : Prop where
  build_eq : mappingPairsBuild vol dst (some rl.elements) startVcn = .ok built
  stopRl_eq : built.stopRl = some stop
  length_eq : built.dst.length = dst.length
  decodes : ∃ runs, PartOf rl startVcn (nextVcn stop) runs ∧ DecodesTo built.dst startVcn runs
  complete_iff : ∃ n : Nat,
    getSizeForMappingPairs vol (some rl.elements) startVcn intMax = .ok n ∧
      (built.complete = true ↔ n ≤ dst.length)
  complete_end : built.complete = true → nextVcn stop = rl.lastVcn
  next_notFits : built.complete = false → ∃ front e rest, stop = e :: rest ∧
    rl.elements = front ++ e :: rest ∧ ∃ n : Nat,
      getSizeForMappingPairs vol
        (some (front ++ [e, cutTerminator (e.vcn + e.length)]))
        startVcn intMax = .ok n ∧ dst.length < n

/-! ## The decoded part -/

lemma Chain.lt_of_cons (hchain : Chain a (e :: runs) b) : a < b := by
  have hle := hchain.2.2.2.le
  have hpos := hchain.2.1
  omega

/-- A buffer that starts with the bytes of a chain and a terminator decodes to
the chain. -/
lemma decodesTo_runsBytes (hchain : Chain a runs b) (ha : 0 ≤ a) (hb : IsS64 b)
    (hstorable : ∀ e ∈ runs, Storable e)
    (htake : bytes.take ((runsBytes vol runs 0).length + 1) = runsBytes vol runs 0 ++ [0])
    (hroom : (runsBytes vol runs 0).length < bytes.length) : DecodesTo bytes a runs := by
  intro attr hlowest hmem hin
  have hfront : HoldsAt attr.mem attr.mappingPairsOffset (runsBytes vol runs 0 ++ [0]) := by
    rw [← take_append_drop ((runsBytes vol runs 0).length + 1) bytes, htake] at hmem
    exact hmem.left
  have hexpand := expandPairs_runsBytes vol attr.mappingPairsOffset 0 hchain ha hb hstorable
    hfront (by omega)
  refine ⟨⟨_, hexpand, rfl⟩, ?_⟩
  intro hcount
  have hbefore := @unmappedBefore_length_le a
  obtain ⟨hloop, hend⟩ := decodeLoop_expandPairs (s := initialDecodeState attr)
    (by rw [initialDecodeState_eq, hlowest]; exact hexpand)
    (by
      rw [initialDecodeState_eq, hlowest]
      rw [UInt16.toNat_ofNat', Nat.mod_eq_of_lt (by omega)])
    (by rw [initialDecodeState_eq, hlowest]; dsimp only; omega)
  exact ⟨_, hloop, hend, by rw [initialDecodeState_eq, hlowest]⟩

section Part

/-- Leading runs of those from a start cluster on are a part of the runlist. -/
lemma partOf_runsFrom (hfirst : rl.firstVcn ≤ startVcn) (hlast : startVcn ≤ rl.lastVcn)
    (hsplit : rl.runsFrom startVcn = stored ++ rest) (hstored : Chain startVcn stored mid)
    (hrest : Chain mid rest rl.lastVcn) : PartOf rl startVcn mid stored := by
  have hle := hstored.le
  refine ⟨by rwa [max_eq_right hle], ?_⟩
  intro vcn
  obtain ⟨_, _, _, _, hwhole⟩ := rl.exists_terminator
  have hmap := lcnAt_clipRuns hwhole rl.runs_lcnInRange hfirst hlast vcn
  change lcnAt (rl.runsFrom startVcn) vcn = _ at hmap
  rw [hsplit, lcnAt_append] at hmap
  unfold restrictTo at hmap ⊢
  have hend := hrest.le
  by_cases hin : startVcn ≤ vcn ∧ vcn < mid
  · obtain ⟨lcn, hlcn⟩ := Option.isSome_iff_exists.mp (hstored.lcnAt_isSome hin)
    rw [hlcn, if_pos ⟨hin.1, by omega⟩] at hmap
    have hlookup := rlVcnToLcn_mappedRunlist (hfirst.trans hin.1) hmap.symm
    rw [if_pos hin, hlcn]
    exact congrArg some hlookup.symm
  · rw [if_neg hin]
    exact hstored.lcnAt_eq_none (by omega)

/-- Nothing lies between a start cluster and an earlier one. -/
lemma partOf_nil (hle : stopVcn ≤ startVcn) : PartOf rl startVcn stopVcn [] := by
  refine ⟨(max_eq_left hle).symm, ?_⟩
  intro vcn
  rw [restrictTo, if_neg (by omega)]
  rfl

lemma PartOf.append (hxs : PartOf rl startVcn mid xs) (hys : PartOf rl mid stopVcn ys)
    (hmid : startVcn ≤ mid) (hstop : mid ≤ stopVcn) : PartOf rl startVcn stopVcn (xs ++ ys) := by
  obtain ⟨hxsChain, hxsMap⟩ := hxs
  obtain ⟨hysChain, hysMap⟩ := hys
  rw [max_eq_right hmid] at hxsChain
  rw [max_eq_right hstop] at hysChain
  refine ⟨by rw [max_eq_right (hmid.trans hstop)]; exact hxsChain.append hysChain, ?_⟩
  intro vcn
  rw [lcnAt_append, hxsMap vcn, hysMap vcn]
  unfold restrictTo
  by_cases hleft : startVcn ≤ vcn ∧ vcn < mid
  · have hwhole : startVcn ≤ vcn ∧ vcn < stopVcn := ⟨hleft.1, by omega⟩
    rw [if_pos hleft, if_pos hwhole, Option.some_or]
  · rw [if_neg hleft, Option.none_or]
    by_cases hright : mid ≤ vcn ∧ vcn < stopVcn
    · rw [if_pos hright, if_pos ⟨by omega, hright.2⟩]
    · rw [if_neg hright, if_neg (by omega)]

end Part

/-! ## Cutting a runlist after a run -/

lemma clipRuns_append (ys : List RunlistElement) (hchain : Chain a xs b) (hb : startVcn < b)
    (ha : a ≤ startVcn) : clipRuns startVcn (xs ++ ys) = clipRuns startVcn xs ++ ys := by
  induction xs generalizing a with
  | nil =>
    have hab : a = b := hchain
    omega
  | cons e rest ih =>
    obtain ⟨hvcn, hpos, _, hrest⟩ := hchain
    rw [cons_append, clipRuns, clipRuns]
    split
    next hskip => exact ih hrest (by omega)
    next => split <;> rfl

lemma Chain.contiguous (hchain : Chain a runs b) (ht : t.vcn = b) (hterm : t.length = 0) :
    Contiguous (runs ++ [t]) := by
  induction runs generalizing a with
  | nil => exact hterm
  | cons e rest ih =>
    obtain ⟨hvcn, hpos, hlcn, hrest⟩ := hchain
    have hnext := hrest.nextVcn_append ht
    have htail := ih hrest
    cases rest with
    | nil => exact ⟨hpos, hlcn, by rw [hvcn]; exact hnext, htail⟩
    | cons e' rest => exact ⟨hpos, hlcn, by rw [hvcn]; exact hnext, htail⟩

lemma endVcn_append : endVcn (runs ++ [t]) = t.vcn := by
  induction runs with
  | nil => rfl
  | cons e rest ih =>
    cases rest with
    | nil => rfl
    | cons e' rest => exact ih

section Cut

variable {rl : MappedRunlist} {front rest : List RunlistElement} {cutVcn : Int}
  (hruns : rl.runs = front ++ rest) (hfront : Chain rl.firstVcn front cutVcn)
  (hrest : Chain cutVcn rest rl.lastVcn)

include hfront in
lemma cut_vcn_nonneg : 0 ≤ nextVcn (front ++ [cutTerminator cutVcn]) := by
  rw [hfront.nextVcn_append rfl]
  exact rl.vcn_nonneg

include hfront hrest in
lemma cut_end_isS64 : IsS64 (endVcn (front ++ [cutTerminator cutVcn])) := by
  rw [endVcn_append]
  exact rl.isS64 hfront.le hrest.le

include hruns in
lemma cut_lcn_inRange : ∀ e ∈ front ++ [cutTerminator cutVcn], LcnInRange e := by
  intro e he
  rcases mem_append.mp he with hmem | hmem
  · apply rl.runs_lcnInRange
    rw [hruns]
    exact mem_append_left _ hmem
  · rw [mem_singleton.mp hmem]
    exact .inl rfl

include hruns in
lemma cut_size_int :
    ((front ++ [cutTerminator cutVcn]).length * sizeofRunlistElement : Int) ≤ intMax := by
  obtain ⟨t, heq, _⟩ := rl.exists_terminator
  have hsize := rl.size_int
  rw [heq, hruns] at hsize
  simp only [length_append, length_singleton, sizeofRunlistElement] at hsize ⊢
  push_cast at hsize ⊢
  omega

/-- The runlist that ends after the runs `front`, with which another one starts. -/
def MappedRunlist.cutAfter : MappedRunlist where
  elements := front ++ [cutTerminator cutVcn]
  contiguous := hfront.contiguous rfl rfl
  vcn_nonneg := cut_vcn_nonneg hfront
  end_isS64 := cut_end_isS64 hfront hrest
  lcn_inRange := cut_lcn_inRange hruns
  size_int := cut_size_int hruns

end Cut

/-- The size of the array that ends with the run `e`. -/
lemma getSizeForMappingPairs_cutAfter (vol : Volume) {rl : MappedRunlist}
    (hruns : rl.runs = front ++ e :: rest) (hfirst : rl.firstVcn ≤ startVcn)
    (hin : startVcn < e.vcn + e.length) (hclip : rl.runsFrom startVcn = stored ++ e' :: rest) :
    getSizeForMappingPairs vol
        (some (front ++ [e, cutTerminator (e.vcn + e.length)]))
        startVcn intMax = .ok ((runsBytes vol (stored ++ [e']) 0).length + 1 : Nat) := by
  obtain ⟨t, _, _, _, hchain⟩ := rl.exists_terminator
  rw [hruns] at hchain
  obtain ⟨mid, hfront, hvcn, hpos, hlcn, htail⟩ := hchain.of_append
  have hwith : Chain rl.firstVcn (front ++ [e]) (e.vcn + e.length) :=
    hfront.append ⟨hvcn, hpos, hlcn, by rw [hvcn]; rfl⟩
  have hruns' : rl.runs = (front ++ [e]) ++ rest := by rw [hruns]; simp
  have hafter : Chain (e.vcn + e.length) rest rl.lastVcn := by
    rw [hvcn]
    exact htail
  let cut := MappedRunlist.cutAfter hruns' hwith hafter
  have helements : cut.elements = front ++ [e, cutTerminator (e.vcn + e.length)] := by
    simp [cut, MappedRunlist.cutAfter]
  have hcutFirst : cut.firstVcn = rl.firstVcn := hwith.nextVcn_append rfl
  have hcutLast : cut.lastVcn = e.vcn + e.length := endVcn_append
  have hcutRuns : cut.runsFrom startVcn = stored ++ [e'] := by
    have hdrop : cut.runs = front ++ [e] := dropLast_concat
    have hjoin := clipRuns_append rest hwith hin hfirst
    rw [← hruns'] at hjoin
    change rl.runsFrom startVcn = _ at hjoin
    rw [hclip, append_cons] at hjoin
    rw [MappedRunlist.runsFrom, hdrop]
    exact (append_cancel_right hjoin).symm
  have hcutStart : cut.firstVcn ≤ startVcn := by omega
  have hsize := getSizeForMappingPairs_eq vol cut hcutStart (by omega)
  rwa [helements, hcutRuns] at hsize

/-! ## One extent -/

lemma skipTo_suffix : skipTo startVcn rl <:+ rl := by
  induction rl with
  | nil => exact suffix_rfl
  | cons e rest ih =>
    rw [skipTo]
    split
    next => exact ih.trans (suffix_cons e rest)
    next => exact suffix_rfl

/-- How a build divides the runs from `startVcn` on into those stored and the
rest, which goes on at `mid`. -/
structure ExtentSplit (vol : Volume) (rl : MappedRunlist) (startVcn : Int) (dst : Buffer)
    (stored rest : List RunlistElement) (mid : Int) (built : BuildResult)
    (stop : List RunlistElement) : Prop where
  runsFrom_eq : rl.runsFrom startVcn = stored ++ rest
  stored_chain : Chain startVcn stored mid
  rest_chain : Chain mid rest rl.lastVcn
  build_eq : mappingPairsBuild vol dst (some rl.elements) startVcn = .ok built
  complete_eq : built.complete = rest.isEmpty
  stopRl_eq : built.stopRl = some stop
  length_eq : built.dst.length = dst.length
  take_eq : built.dst.take ((runsBytes vol stored 0).length + 1) = runsBytes vol stored 0 ++ [0]
  stored_fits : (runsBytes vol stored 0).length < dst.length
  next_notFits : ∀ e ∈ rest.head?, dst.length ≤ (runsBytes vol stored 0).length +
    (pairBytes e.length (lcnChange vol (lastLcn vol stored 0) e)).length
  stop_vcn : nextVcn stop = mid ∨ stored = [] ∧ rest ≠ [] ∧ nextVcn stop < startVcn
  stop_run : ∀ e' tail, rest = e' :: tail → ∃ front e t, stop = e :: (tail ++ [t]) ∧
    rl.elements = front ++ stop ∧ rl.runs = front ++ e :: tail ∧ startVcn < e.vcn + e.length

section Build

variable (vol : Volume) (rl : MappedRunlist) (hfirst : rl.firstVcn ≤ startVcn)
  (hlast : startVcn < rl.lastVcn)

include hfirst hlast

lemma mappingPairsBuild_split (dst : Buffer) (hdst : 0 < dst.length) :
    ∃ stored rest mid built stop, ExtentSplit vol rl startVcn dst stored rest mid built stop := by
  obtain ⟨t, heq, hterm, ht, hwhole⟩ := rl.exists_terminator
  have hstart : 0 ≤ startVcn := rl.vcn_nonneg.trans hfirst
  obtain ⟨stored, rest, stop, buf', hsplit, hbuild, hstop, hsuffix, hlen, htake, hend, _, hnext⟩ :=
    buildFrom_skipTo vol hwhole ht hterm rl.runs_lcnInRange hfirst (le_of_lt hlast) dst hdst
  have hchain := rl.runsFrom_chain hfirst (le_of_lt hlast)
  have hsplit' : rl.runsFrom startVcn = stored ++ rest := hsplit
  rw [hsplit'] at hchain
  obtain ⟨mid, hstored, hrest⟩ := hchain.of_append
  refine ⟨stored, rest, mid, { complete := rest.isEmpty, dst := buf', stopRl := some stop }, stop,
    hsplit, hstored, hrest, ?_, rfl, rfl, hlen, htake, hend, hnext, ?_, ?_⟩
  · rw [mappingPairsBuild, if_neg (by omega), heq]
    exact hbuild
  · rcases hstop with rfl | ⟨hnil, e, tail, hmid, rfl, rfl⟩
    · exact .inl (hrest.nextVcn_append ht)
    · exact .inr ⟨hnil, by simp, hmid⟩
  · intro e' tail htail
    obtain ⟨front, hfront⟩ := hsuffix.trans skipTo_suffix
    -- The reported run is the first one left over, before it was clipped.
    have hrun : ∃ e, stop = e :: (tail ++ [t]) ∧ startVcn < e.vcn + e.length := by
      rw [htail] at hrest hstop
      obtain ⟨hvcn, hpos, _, _⟩ := hrest
      have hle := hstored.le
      rcases hstop with rfl | ⟨_, e, tail', hmid, hcons, rfl⟩
      · exact ⟨e', rfl, by omega⟩
      · injection hcons with hhead htails
        rw [hhead, e.dropTo_length] at hpos
        exact ⟨e, by rw [htails]; rfl, by omega⟩
    obtain ⟨e, rfl, hin⟩ := hrun
    refine ⟨front, e, t, rfl, heq.trans hfront.symm, ?_, hin⟩
    rw [← cons_append, ← append_assoc] at hfront
    exact (append_cancel_right hfront).symm

variable {vol rl} (hext : ExtentSplit vol rl startVcn dst stored rest mid built stop)

include hext

lemma ExtentSplit.decodes : PartOf rl startVcn (nextVcn stop) stored ∧
    DecodesTo built.dst startVcn stored := by
  have hstorable := rl.runsFrom_storable hfirst (le_of_lt hlast)
  rw [hext.runsFrom_eq] at hstorable
  have hmid := rl.isS64 (hfirst.trans hext.stored_chain.le) hext.rest_chain.le
  constructor
  · rcases hext.stop_vcn with hvcn | ⟨hnil, _, hbefore⟩
    · rw [hvcn]
      exact partOf_runsFrom hfirst (le_of_lt hlast) hext.runsFrom_eq hext.stored_chain
        hext.rest_chain
    · rw [hnil]
      exact partOf_nil (le_of_lt hbefore)
  · exact decodesTo_runsBytes hext.stored_chain (rl.vcn_nonneg.trans hfirst) hmid
      (fun e he => hstorable e (mem_append_left _ he)) hext.take_eq
      (by rw [hext.length_eq]; exact hext.stored_fits)

lemma ExtentSplit.complete_iff : ∃ n : Nat,
    getSizeForMappingPairs vol (some rl.elements) startVcn intMax = .ok n ∧
      (built.complete = true ↔ n ≤ dst.length) := by
  refine ⟨_, getSizeForMappingPairs_eq vol rl hfirst (le_of_lt hlast), ?_⟩
  rw [hext.complete_eq, hext.runsFrom_eq, runsBytes_append, length_append]
  have hfits := hext.stored_fits
  have hnext := hext.next_notFits
  cases rest with
  | nil =>
    simp only [isEmpty_nil, true_iff, runsBytes, length_nil]
    omega
  | cons e tail =>
    have hnot := hnext e rfl
    simp only [isEmpty_cons, Bool.false_eq_true, false_iff, runsBytes, length_append]
    omega

omit hlast in
lemma ExtentSplit.sizeThroughNext (hmore : built.complete = false) :
    ∃ front e tail, stop = e :: tail ∧ rl.elements = front ++ e :: tail ∧ ∃ n : Nat,
      getSizeForMappingPairs vol
        (some (front ++ [e, cutTerminator (e.vcn + e.length)]))
        startVcn intMax = .ok n ∧ dst.length < n := by
  have hnext := hext.next_notFits
  have hruns := hext.runsFrom_eq
  rw [hext.complete_eq] at hmore
  obtain ⟨e', tail, hcons⟩ := ne_nil_iff_exists_cons.mp (isEmpty_eq_false_iff.mp hmore)
  obtain ⟨front, e, t, hstop, helements, hfront, hin⟩ := hext.stop_run e' tail hcons
  rw [hcons] at hruns hnext
  refine ⟨front, e, tail ++ [t], hstop, hstop ▸ helements, _,
    getSizeForMappingPairs_cutAfter vol hfront hfirst hin hruns, ?_⟩
  have hnot := hnext e' rfl
  rw [runsBytes_append]
  simp only [runsBytes, length_append, append_nil]
  omega

lemma ExtentSplit.buildsExtent : BuildsExtent vol rl startVcn dst built stop where
  build_eq := hext.build_eq
  stopRl_eq := hext.stopRl_eq
  length_eq := hext.length_eq
  decodes := ⟨stored, hext.decodes hfirst hlast⟩
  complete_iff := hext.complete_iff hfirst hlast
  complete_end := by
    intro hcomplete
    rw [hext.complete_eq, List.isEmpty_iff] at hcomplete
    rcases hext.stop_vcn with hvcn | ⟨_, hne, _⟩
    · have hrest := hext.rest_chain
      rw [hcomplete] at hrest
      exact hvcn.trans hrest
    · exact absurd hcomplete hne
  next_notFits := hext.sizeThroughNext hfirst

omit hfirst in
/-- An incomplete build stops before the end of the runlist. -/
lemma ExtentSplit.stop_lt_last (hmore : built.complete = false) : nextVcn stop < rl.lastVcn := by
  rw [hext.complete_eq] at hmore
  obtain ⟨e, tail, hcons⟩ := ne_nil_iff_exists_cons.mp (isEmpty_eq_false_iff.mp hmore)
  have hrest := hext.rest_chain
  rw [hcons] at hrest
  have hlt := hrest.lt_of_cons
  rcases hext.stop_vcn with hvcn | ⟨_, _, hbefore⟩ <;> omega

/-- A buffer with room for a pair and a terminator makes progress. -/
lemma ExtentSplit.progress (hroom : 18 ≤ dst.length) : startVcn < nextVcn stop := by
  have hstorable := rl.runsFrom_storable hfirst (le_of_lt hlast)
  have hnext := hext.next_notFits
  have hchain := hext.stored_chain
  rw [hext.runsFrom_eq] at hstorable
  cases rest with
  | nil =>
    have hmid : mid = rl.lastVcn := hext.rest_chain
    rcases hext.stop_vcn with hvcn | ⟨_, hne, _⟩
    · omega
    · exact absurd rfl hne
  | cons e tail =>
    have hlen := pairBytes_length_le (hstorable e (by simp)).length_isS64
      (lcnChange_isS64 vol (lastLcn vol stored 0) e)
    have hnot := hnext e rfl
    cases stored with
    | nil =>
      simp only [runsBytes, length_nil] at hnot
      omega
    | cons x stored =>
      have hlt := hchain.lt_of_cons
      rcases hext.stop_vcn with hvcn | ⟨hnil, _, _⟩
      · omega
      · cases hnil

end Build

/-! ## Successive extents -/

/-- Successive builds from `startVcn` on, each from the run at which the one
before it stopped, until one is complete. Each extent is given by its first
cluster and its buffer. -/
inductive ExtentRun (vol : Volume) (rl : MappedRunlist) : Int → List (Int × Buffer) → Prop where
  | last {startVcn : Int} {dst : Buffer} {built : BuildResult} (hdst : 0 < dst.length)
      (hbuild : mappingPairsBuild vol dst (some rl.elements) startVcn = .ok built)
      (hcomplete : built.complete = true) : ExtentRun vol rl startVcn [(startVcn, built.dst)]
  | more {startVcn : Int} {dst : Buffer} {built : BuildResult} {stop : List RunlistElement}
      {extents : List (Int × Buffer)} (hdst : 0 < dst.length)
      (hbuild : mappingPairsBuild vol dst (some rl.elements) startVcn = .ok built)
      (hmore : built.complete = false) (hstop : built.stopRl = some stop)
      (hprogress : startVcn < nextVcn stop) (hrest : ExtentRun vol rl (nextVcn stop) extents) :
      ExtentRun vol rl startVcn ((startVcn, built.dst) :: extents)

lemma mappingPairsBuild_buildsExtent (hfirst : rl.firstVcn ≤ startVcn)
    (hlast : startVcn < rl.lastVcn) (hdst : 0 < dst.length)
    (hbuild : mappingPairsBuild vol dst (some rl.elements) startVcn = .ok built) :
    ∃ stop, BuildsExtent vol rl startVcn dst built stop ∧
      (built.complete = false → nextVcn stop < rl.lastVcn) := by
  obtain ⟨stored, rest, mid, built', stop, hext⟩ :=
    mappingPairsBuild_split vol rl hfirst hlast dst hdst
  have hsame : built' = built := Except.ok.inj (hext.build_eq.symm.trans hbuild)
  subst hsame
  exact ⟨stop, hext.buildsExtent hfirst hlast, hext.stop_lt_last hlast⟩

/-- The extents of a sequence of builds decode to consecutive parts that make up
the runlist from the first start cluster to its end. -/
lemma ExtentRun.partOf (hrun : ExtentRun vol rl startVcn extents)
    (hfirst : rl.firstVcn ≤ startVcn) (hlast : startVcn < rl.lastVcn) :
    ∃ parts, Forall₂ (fun ext runs => DecodesTo ext.2 ext.1 runs) extents parts ∧
      PartOf rl startVcn rl.lastVcn parts.flatten := by
  induction hrun with
  | last hdst hbuild hcomplete =>
    obtain ⟨stop, hext, _⟩ := mappingPairsBuild_buildsExtent hfirst hlast hdst hbuild
    obtain ⟨runs, hpart, hdecodes⟩ := hext.decodes
    refine ⟨[runs], Forall₂.cons hdecodes Forall₂.nil, ?_⟩
    rw [flatten_singleton, ← hext.complete_end hcomplete]
    exact hpart
  | more hdst hbuild hmore hstop hprogress hrest ih =>
    obtain ⟨stop, hext, hbefore⟩ := mappingPairsBuild_buildsExtent hfirst hlast hdst hbuild
    have hsame := Option.some.inj (hext.stopRl_eq.symm.trans hstop)
    subst hsame
    obtain ⟨runs, hpart, hdecodes⟩ := hext.decodes
    obtain ⟨parts, hparts, hjoined⟩ := ih (by omega) (hbefore hmore)
    refine ⟨runs :: parts, Forall₂.cons hdecodes hparts, ?_⟩
    exact hpart.append hjoined (le_of_lt hprogress) (le_of_lt (hbefore hmore))

/-- Buffers with room for a pair and a terminator always lead to the end. -/
lemma exists_extentRun (vol : Volume) (rl : MappedRunlist) (startVcn : Int) (dst : Buffer)
    (hfirst : rl.firstVcn ≤ startVcn) (hlast : startVcn < rl.lastVcn) (hroom : 18 ≤ dst.length) :
    ∃ extents, ExtentRun vol rl startVcn extents := by
  induction hk : (rl.lastVcn - startVcn).toNat using Nat.strongRecOn generalizing startVcn with
  | ind k ih =>
    obtain ⟨stored, rest, mid, built, stop, hext⟩ :=
      mappingPairsBuild_split vol rl hfirst hlast dst (by omega)
    have hprogress := hext.progress hfirst hlast hroom
    cases hcomplete : built.complete with
    | true => exact ⟨_, ExtentRun.last (by omega) hext.build_eq hcomplete⟩
    | false =>
      have hbefore := hext.stop_lt_last hlast hcomplete
      obtain ⟨extents, hrun⟩ := ih (rl.lastVcn - nextVcn stop).toNat (by omega)
        (nextVcn stop) (by omega) hbefore rfl
      exact ⟨_, ExtentRun.more (by omega) hext.build_eq hcomplete hext.stopRl_eq hprogress hrun⟩

/-- Extent splitting: every build into a nonempty buffer stores a part of the
runlist, is complete exactly when the computed size fits, and otherwise stops
at a run that does not fit; successive builds that make progress describe the
runlist from the first start cluster on, each cluster once. -/
theorem mappingPairsBuild_extents (vol : Volume) (rl : MappedRunlist) (startVcn : Int)
    (hfirst : rl.firstVcn ≤ startVcn) (hlast : startVcn < rl.lastVcn) :
    (∀ dst : Buffer, 1 ≤ dst.length → ∃ built stop, BuildsExtent vol rl startVcn dst built stop) ∧
    ∀ extents, ExtentRun vol rl startVcn extents →
      ∃ parts, Forall₂ (fun ext runs => DecodesTo ext.2 ext.1 runs) extents parts ∧
        PartOf rl startVcn rl.lastVcn parts.flatten := by
  constructor
  · intro dst hdst
    obtain ⟨stored, rest, mid, built, stop, hext⟩ :=
      mappingPairsBuild_split vol rl hfirst hlast dst hdst
    exact ⟨built, stop, hext.buildsExtent hfirst hlast⟩
  · intro extents hrun
    exact hrun.partOf hfirst hlast

theorem mappingPairsBuild_extents_fragmented :
    (∃ built stop, BuildsExtent volume31 fragmentedRunlist 1 [0] built stop) ∧
    ∃ extents parts, ExtentRun volume31 fragmentedRunlist 1 extents ∧
      Forall₂ (fun ext runs => DecodesTo ext.2 ext.1 runs) extents parts ∧
        PartOf fragmentedRunlist 1 205 parts.flatten := by
  obtain ⟨hone, hruns⟩ :=
    mappingPairsBuild_extents volume31 fragmentedRunlist 1 (by decide) (by decide)
  obtain ⟨extents, hrun⟩ := exists_extentRun volume31 fragmentedRunlist 1
    (replicate 18 0) (by decide) (by decide) (by simp)
  obtain ⟨parts, hparts, hjoined⟩ := hruns extents hrun
  exact ⟨hone [0] (by decide), extents, parts, hrun, hparts, hjoined⟩

end NtfsDxe
