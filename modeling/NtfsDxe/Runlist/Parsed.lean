import NtfsDxe.Runlist.RoundTrip
import NtfsDxe.Runlist.Spans
import Mathlib.Algebra.Order.BigOperators.Group.List

/-! # What the mapping pairs parser accepts

The parser reads untrusted bytes. It rejects negative lengths and cluster
numbers below a hole, but neither lengths of zero nor sums that leave the 64-bit
range, and its array index has sixteen bits. Its result is a well-formed runlist
exactly when none of these three occurs. Its tests for the end of the record are
off by one, so the last byte of a pair may be the first byte behind the record.
-/

namespace NtfsDxe

open Foundation List

/-- The array up to its first element of length zero, where all later code stops. -/
def beforeEnd (rl : List RunlistElement) : List RunlistElement :=
  rl.takeWhile fun e => decide (e.length ≠ 0)

section

variable (vol : Volume) (attr : AttrRecord)

/-- `max_cluster` of the parser. -/
def maxCluster : Int :=
  s64 (attr.allocatedSize + vol.clusterSize - 1) / 2 ^ vol.clusterSizeBits - 1

def allocatedClusters : Int :=
  (attr.allocatedSize + vol.clusterSize - 1) / vol.clusterSize

/-- A base extent whose clusters end before those of the attribute. -/
def MoreToFollow : Prop :=
  attr.lowestVcn = 0 ∧ attr.highestVcn ≠ 0 ∧ attr.highestVcn < maxCluster vol attr

instance (vol : Volume) (attr : AttrRecord) : Decidable (MoreToFollow vol attr) :=
  inferInstanceAs (Decidable (_ ∧ _))

/-- The run for the clusters of the extents that follow the base extent. -/
def unmappedAfter (vcn : Int) : RunlistElement :=
  { vcn := vcn, lcn := lcnRlNotMapped, length := maxCluster vol attr - attr.highestVcn }

def extentEnd (attr : AttrRecord) (vcn : Int) : RunlistElement :=
  { vcn := vcn, lcn := if attr.lowestVcn = 0 then lcnEnoent else lcnRlNotMapped, length := 0 }

def closing (vcn : Int) : List RunlistElement :=
  if MoreToFollow vol attr then
    [unmappedAfter vol attr vcn, extentEnd attr (s64 (vcn + (unmappedAfter vol attr vcn).length))]
  else [extentEnd attr vcn]

end

/-- A runlist that, read up to its first element of length zero, contains
everything that was decoded, without gap, overlap or overflow. -/
structure WellParsed (vol : Volume) (attr : AttrRecord) (decoded rl : List RunlistElement) :
    Prop where
  covers : unmappedBefore attr.lowestVcn ++ decoded <+: beforeEnd rl
  ends : ∃ t slack, rl = beforeEnd rl ++ t :: slack ∧ t.length = 0 ∧
    Spans 0 (beforeEnd rl) t.vcn ∧ IsS64 t.vcn ∧
      (attr.highestVcn ≠ 0 → t.vcn = attr.highestVcn + 1 ∨
        attr.lowestVcn = 0 ∧ t.vcn = allocatedClusters vol attr)

/-- The mapping pairs for which the parser keeps its promise. -/
structure CleanPairs (vol : Volume) (attr : AttrRecord) (decoded : List RunlistElement) :
    Prop where
  length_pos : ∀ e ∈ decoded, 0 < e.length
  end_lt : attr.lowestVcn + (decoded.map (·.length)).sum < 2 ^ 63
  count_lt : (unmappedBefore attr.lowestVcn).length + decoded.length +
    (if MoreToFollow vol attr then 1 else 0) < 65536

/-! ## The decoded runs -/

variable {attr : AttrRecord}

lemma decodeRun_ok (hrun : decodeRun attr buf header vcn lcn = .ok (e, lcn')) :
    e.vcn = vcn ∧ 0 ≤ e.length ∧ lcnHole ≤ e.lcn := by
  simp only [decodeRun, bind, Except.bind] at hrun
  split at hrun
  · cases hrun
  split at hrun
  · cases hrun
  split at hrun
  · cases hrun
  next length _ =>
    split at hrun
    · cases hrun
    next hneg =>
      split at hrun
      · cases hrun
        exact ⟨rfl, by simpa using hneg, le_rfl⟩
      split at hrun
      · cases hrun
      split at hrun
      · cases hrun
      split at hrun
      · cases hrun
      next hlcn =>
        cases hrun
        exact ⟨rfl, by simpa using hneg, by simpa [lcnHole] using hlcn⟩

section

variable (hx : expandPairs attr buf vcn lcn = .ok x)
include hx

lemma expandPairs_cases :
    (x.runs = [] ∧ x.vcn = vcn) ∨
      ∃ header e lcn' y, decodeRun attr buf header vcn lcn = .ok (e, lcn') ∧
        expandPairs attr (buf + (header.toNat % 16 + header.toNat / 16 + 1))
          (s64 (vcn + e.length)) lcn' = .ok y ∧ x = { y with runs := e :: y.runs } := by
  rw [expandPairs] at hx
  split at hx
  · split at hx
    · cases hx
    next header _ =>
      split at hx
      · cases hx
        exact .inl ⟨rfl, rfl⟩
      · split at hx
        · cases hx
        next e lcn' hrun =>
          split at hx
          · cases hx
          next y hy =>
            cases hx
            exact .inr ⟨header, e, lcn', y, hrun, hy, rfl⟩
  · cases hx

/-- Runs of positive length whose sum stays in range form a chain. -/
lemma expandPairs_chain (hvcn : 0 ≤ vcn) (hpos : ∀ e ∈ x.runs, 0 < e.length)
    (hend : vcn + (x.runs.map (·.length)).sum < 2 ^ 63) : Chain vcn x.runs x.vcn := by
  obtain ⟨runs, hruns⟩ : ∃ runs, x.runs = runs := ⟨_, rfl⟩
  induction runs generalizing buf vcn lcn x with
  | nil =>
    rcases expandPairs_cases hx with ⟨hnil, hend⟩ | ⟨_, e, _, y, _, _, rfl⟩
    · rw [hnil, hend]
      rfl
    · cases hruns
  | cons e rest ih =>
    rcases expandPairs_cases hx with ⟨hnil, _⟩ | ⟨_, e', lcn', y, hrun, hy, rfl⟩
    · rw [hruns] at hnil
      cases hnil
    · obtain ⟨rfl, rfl⟩ := List.cons.inj hruns
      obtain ⟨hvcnEq, _, hlcn⟩ := decodeRun_ok hrun
      have hlen : 0 < e'.length := hpos e' mem_cons_self
      have hrest : ∀ e ∈ y.runs, 0 < e.length := fun e he => hpos e (mem_cons_of_mem _ he)
      have hsum : 0 ≤ (y.runs.map (·.length)).sum := by
        apply sum_nonneg
        intro length hlength
        obtain ⟨e, he, rfl⟩ := mem_map.mp hlength
        exact le_of_lt (hrest e he)
      simp only [map_cons, sum_cons] at hend
      have hnext : s64 (vcn + e'.length) = vcn + e'.length := by
        apply s64_of_isS64
        rw [isS64_iff]
        omega
      rw [hnext] at hy
      exact ⟨hvcnEq, hlen, hlcn, ih hy (by omega) hrest (by omega) rfl⟩

lemma expandPairs_vcn_isS64 (hvcn : IsS64 vcn) : IsS64 x.vcn := by
  obtain ⟨runs, hruns⟩ : ∃ runs, x.runs = runs := ⟨_, rfl⟩
  induction runs generalizing buf vcn lcn x with
  | nil =>
    rcases expandPairs_cases hx with ⟨_, hend⟩ | ⟨_, e, _, y, _, _, rfl⟩
    · rwa [hend]
    · cases hruns
  | cons e rest ih =>
    rcases expandPairs_cases hx with ⟨hnil, _⟩ | ⟨_, e', lcn', y, _, hy, rfl⟩
    · rw [hruns] at hnil
      cases hnil
    · have hend : IsS64 y.vcn := ih hy (s64_isS64 _) (List.cons.inj hruns).2
      exact hend

end

/-! ## The array of the decoding loop -/

lemma putElement_length_le {rlpos : UInt16} (hrl : rl.length ≤ 65536) :
    (putElement rl rlpos.toNat e).length ≤ 65536 := by
  have hpos := rlpos.toNat_lt
  simp only [putElement, length_append, length_take, length_cons, length_drop]
  omega

/-- A loop that stops inside the attribute has read a complete mapping pairs
array. Its own array never has more elements than its index has values. -/
lemma decodeLoop_ok (hloop : decodeLoop attr s = .ok s')
    (hin : s'.buf < attr.length) (hrl : s.rl.length ≤ 65536) :
    ∃ x, expandPairs attr s.buf s.vcn s.lcn = .ok x ∧ s'.vcn = x.vcn ∧ s'.rl.length ≤ 65536 := by
  induction hk : attr.length - s.buf using Nat.strongRecOn generalizing s with
  | ind k ih =>
    rw [decodeLoop] at hloop
    rw [expandPairs]
    split at hloop
    next hbuf =>
      rw [if_pos hbuf]
      cases hload : load attr.mem s.buf with
      | error failure =>
        rw [hload] at hloop
        cases hloop
      | ok header =>
        rw [hload] at hloop
        dsimp only at hloop ⊢
        split at hloop
        next hzero =>
          cases hloop
          rw [if_pos hzero]
          exact ⟨_, rfl, rfl, hrl⟩
        next hzero =>
          rw [if_neg hzero]
          cases hrun : decodeRun attr s.buf header s.vcn s.lcn with
          | error failure =>
            rw [hrun] at hloop
            cases hloop
          | ok decoded =>
            obtain ⟨e, lcn⟩ := decoded
            rw [hrun] at hloop
            have hless :
                attr.length - (s.buf + (header.toNat % 16 + header.toNat / 16 + 1)) < k := by
              omega
            obtain ⟨y, hy, hvcn, hlen⟩ := ih _ hless hloop (putElement_length_le hrl) rfl
            dsimp only at hy ⊢
            rw [hy]
            exact ⟨_, rfl, hvcn, hlen⟩
    next hbuf =>
      cases hloop
      exact absurd hin hbuf

/-- How the array is closed: after the sizes agree, a run for the extents that
follow a base extent, and the terminator. -/
lemma closeRunlist_cases (hclose : closeRunlist vol attr s = .ok rl) :
    (attr.highestVcn ≠ 0 → s64 (s.vcn - 1) = attr.highestVcn) ∧
      ((MoreToFollow vol attr ∧ rl = putElement
          (putElement s.rl s.rlpos.toNat (unmappedAfter vol attr s.vcn)) (s.rlpos + 1).toNat
          (extentEnd attr (s64 (s.vcn + (unmappedAfter vol attr s.vcn).length)))) ∨
        (¬ MoreToFollow vol attr ∧ rl = putElement s.rl s.rlpos.toNat (extentEnd attr s.vcn))) := by
  unfold closeRunlist at hclose
  dsimp only at hclose
  split at hclose
  · cases hclose
  next hagree =>
    refine ⟨fun hne => not_not.mp fun hdiff => hagree ⟨hne, hdiff⟩, ?_⟩
    split at hclose
    next hbase =>
      split at hclose
      · cases hclose
      split at hclose
      next hmore =>
        cases hclose
        refine .inl ⟨⟨hbase, hmore⟩, ?_⟩
        simp only [unmappedAfter, extentEnd, maxCluster, hbase, if_true]
      next hmore =>
        cases hclose
        refine .inr ⟨fun hfollow => hmore hfollow.2, ?_⟩
        simp only [extentEnd, hbase, if_true]
    next hbase =>
      cases hclose
      refine .inr ⟨fun hfollow => hbase hfollow.1, ?_⟩
      simp only [extentEnd, hbase, if_false]

/-! ## Main result -/

lemma unmappedBefore_spans (ha : 0 ≤ a) : Spans 0 (unmappedBefore a) a := by
  unfold unmappedBefore
  split
  next hzero => exact hzero.symm
  next hne =>
    have hpos : 0 < a := by omega
    exact ⟨rfl, hpos, le_rfl, zero_add a⟩

lemma beforeEnd_append (slack : List RunlistElement) (hpos : ∀ e ∈ runs, 0 < e.length)
    (ht : t.length = 0) : beforeEnd (runs ++ t :: slack) = runs := by
  have hall : ∀ e ∈ runs, decide (e.length ≠ 0) = true := by
    intro e he
    have := hpos e he
    simp only [decide_eq_true_eq]
    omega
  rw [beforeEnd, takeWhile_append_of_pos hall, takeWhile_cons_of_neg (by simp [ht]), append_nil]

/-- The allocated size is rounded up without overflow if that leaves any cluster. -/
lemma maxCluster_add_one (hbits : vol.clusterSizeBits < 32) (hpos : 0 ≤ maxCluster vol attr) :
    maxCluster vol attr + 1 = allocatedClusters vol attr := by
  have hsize : (vol.clusterSize : Int) = 2 ^ vol.clusterSizeBits := by
    rw [vol.clusterSize_eq]
    rfl
  unfold maxCluster at hpos ⊢
  unfold allocatedClusters
  rw [hsize] at hpos ⊢
  have hsizePos : (0 : Int) < 2 ^ vol.clusterSizeBits := by positivity
  have hsizeLe : (2 : Int) ^ vol.clusterSizeBits ≤ 2 ^ 31 :=
    pow_le_pow_right₀ (by norm_num) (by omega)
  have hsize64 := isS64_iff.mp attr.inRange.2.2
  generalize (2 : Int) ^ vol.clusterSizeBits = size at *
  -- An overflow would make the rounded size negative.
  have hfits : IsS64 (attr.allocatedSize + size - 1) := by
    by_contra hover
    rw [isS64_iff] at hover
    have hwrap : s64 (attr.allocatedSize + size - 1) < 0 := by
      have hless : IsS64 (attr.allocatedSize + size - 1 - 18446744073709551616) := by
        rw [isS64_iff]
        omega
      have hsame : s64 (attr.allocatedSize + size - 1) =
          s64 (attr.allocatedSize + size - 1 - 18446744073709551616) :=
        (Int.sub_bmod_right _ (2 ^ 64)).symm
      rw [hsame, s64_of_isS64 hless]
      omega
    have hneg := Int.ediv_neg_of_neg_of_pos hwrap hsizePos
    omega
  rw [s64_of_isS64 hfits]
  omega

lemma maxCluster_add_one_isS64 (hpos : 0 ≤ maxCluster vol attr) :
    IsS64 (maxCluster vol attr + 1) := by
  have hfits := isS64_iff.mp (s64_isS64 (attr.allocatedSize + vol.clusterSize - 1))
  have hsize : (0 : Int) < 2 ^ vol.clusterSizeBits := by positivity
  unfold maxCluster at hpos ⊢
  generalize s64 (attr.allocatedSize + vol.clusterSize - 1) = size at *
  have hnonneg : 0 ≤ size := by
    by_contra hneg
    have := Int.ediv_neg_of_neg_of_pos (by omega : size < 0) hsize
    omega
  have hle := Int.ediv_le_self (2 ^ vol.clusterSizeBits) hnonneg
  rw [isS64_iff]
  omega

section Accepted

variable {vol : Volume} {attr : AttrRecord} {rl : List RunlistElement} {x : Expansion}

/-- An accepted record has a complete mapping pairs array. -/
lemma mappingPairsDecompress_cases (hrl : mappingPairsDecompress vol attr = .ok rl) :
    0 ≤ attr.lowestVcn ∧ ∃ s x, decodeLoop attr (initialDecodeState attr) = .ok s ∧
      expandPairs attr attr.mappingPairsOffset attr.lowestVcn 0 = .ok x ∧ s.vcn = x.vcn ∧
        s.rl.length ≤ 65536 ∧ closeRunlist vol attr s = .ok rl := by
  rw [mappingPairsDecompress] at hrl
  split at hrl
  · cases hrl
  next hvalid =>
    split at hrl
    · cases hrl
    cases hloop : decodeLoop attr (initialDecodeState attr) with
    | error failure =>
      rw [hloop] at hrl
      cases hrl
    | ok s =>
      rw [hloop] at hrl
      simp only [bind, Except.bind] at hrl
      split at hrl
      · cases hrl
      next hbuf =>
        have hinit := initialDecodeState_eq attr
        have hshort : (initialDecodeState attr).rl.length ≤ 65536 := by
          rw [hinit]
          exact unmappedBefore_length_le.trans (by norm_num)
        obtain ⟨x, hx, hvcn, hlen⟩ := decodeLoop_ok hloop (by omega) hshort
        rw [hinit] at hx
        exact ⟨by omega, s, x, rfl, hx, hvcn, hlen, hrl⟩

/-- Below the limit of the array index the closing elements follow the runs. -/
lemma closeRunlist_append (hclose : closeRunlist vol attr s = .ok rl)
    (hpos : s.rlpos.toNat = s.rl.length)
    (hcount : s.rl.length + (if MoreToFollow vol attr then 1 else 0) < 65536) :
    rl = s.rl ++ closing vol attr s.vcn := by
  unfold closing
  obtain ⟨_, ⟨hmore, rfl⟩ | ⟨hlast, rfl⟩⟩ := closeRunlist_cases hclose
  · rw [if_pos hmore] at hcount ⊢
    have hnext : (s.rlpos + 1).toNat = (s.rl ++ [unmappedAfter vol attr s.vcn]).length := by
      rw [UInt16.toNat_add, hpos, length_append]
      exact Nat.mod_eq_of_lt hcount
    rw [hpos, putElement_end, hnext, putElement_end, append_assoc]
    rfl
  · rw [if_neg hlast, hpos, putElement_end]

section

variable (hx : expandPairs attr attr.mappingPairsOffset attr.lowestVcn 0 = .ok x)
include hx

/-- Below the limit of the array index the loop collects the decoded runs. -/
lemma decodeLoop_initial (hcount : (unmappedBefore attr.lowestVcn).length + x.runs.length < 65536) :
    decodeLoop attr (initialDecodeState attr) =
        .ok { buf := x.buf, vcn := x.vcn, lcn := x.lcn,
              rl := unmappedBefore attr.lowestVcn ++ x.runs,
              rlpos := UInt16.ofNat ((unmappedBefore attr.lowestVcn).length + x.runs.length) } ∧
      x.buf < attr.length := by
  have hinit := initialDecodeState_eq attr
  have hindex : (UInt16.ofNat (unmappedBefore attr.lowestVcn).length).toNat =
      (unmappedBefore attr.lowestVcn).length := by
    rw [UInt16.toNat_ofNat', Nat.mod_eq_of_lt (by omega)]
  have hloop := decodeLoop_expandPairs (s := initialDecodeState attr) (x := x)
    (by rw [hinit]; exact hx) (by rw [hinit]; exact hindex) (by rw [hinit]; exact hcount)
  rw [hinit] at hloop ⊢
  exact hloop

lemma CleanPairs.spans (hclean : CleanPairs vol attr x.runs) (hlow : 0 ≤ attr.lowestVcn) :
    Spans 0 (unmappedBefore attr.lowestVcn ++ x.runs) x.vcn :=
  (unmappedBefore_spans hlow).append
    (expandPairs_chain hx hlow hclean.length_pos hclean.end_lt).spans

variable (hrl : mappingPairsDecompress vol attr = .ok rl)
include hrl

lemma CleanPairs.eq_append (hclean : CleanPairs vol attr x.runs) :
    rl = unmappedBefore attr.lowestVcn ++ x.runs ++ closing vol attr x.vcn ∧
      (attr.highestVcn ≠ 0 → s64 (x.vcn - 1) = attr.highestVcn) := by
  obtain ⟨_, s, _, hloop, _, _, _, hclose⟩ := mappingPairsDecompress_cases hrl
  have hcount := hclean.count_lt
  obtain ⟨hdecoded, _⟩ := decodeLoop_initial hx (by omega)
  have hs := Except.ok.inj (hloop.symm.trans hdecoded)
  subst hs
  have hindex : (UInt16.ofNat ((unmappedBefore attr.lowestVcn).length + x.runs.length)).toNat =
      (unmappedBefore attr.lowestVcn ++ x.runs).length := by
    rw [UInt16.toNat_ofNat', Nat.mod_eq_of_lt (by omega), length_append]
  refine ⟨closeRunlist_append hclose hindex ?_, (closeRunlist_cases hclose).1⟩
  rwa [length_append]

/-- Clean mapping pairs give a well-formed runlist. -/
lemma CleanPairs.wellParsed (hclean : CleanPairs vol attr x.runs)
    (hbits : vol.clusterSizeBits < 32) : WellParsed vol attr x.runs rl := by
  have hspans := hclean.spans hx (mappingPairsDecompress_cases hrl).1
  have hend := expandPairs_vcn_isS64 hx attr.inRange.1
  have hnonneg : 0 ≤ x.vcn := hspans.le
  obtain ⟨rfl, hagree⟩ := hclean.eq_append hx hrl
  have hprev : s64 (x.vcn - 1) = x.vcn - 1 := by
    apply s64_of_isS64
    rw [isS64_iff] at hend ⊢
    omega
  unfold closing
  split
  next hmore =>
    -- One more run stands for the extents that follow.
    obtain ⟨hbase, hne, hlt⟩ := hmore
    have hlength : x.vcn + (unmappedAfter vol attr x.vcn).length = maxCluster vol attr + 1 := by
      change x.vcn + (maxCluster vol attr - attr.highestVcn) = _
      omega
    have hfull : Spans 0 (unmappedBefore attr.lowestVcn ++ x.runs ++ [unmappedAfter vol attr x.vcn])
        (maxCluster vol attr + 1) := by
      refine hspans.append ⟨rfl, ?_, le_rfl, hlength⟩
      omega
    have hmax : 0 ≤ maxCluster vol attr := by omega
    have hfits := maxCluster_add_one_isS64 hmax
    rw [hlength, s64_of_isS64 hfits, append_cons]
    have hbefore := beforeEnd_append (t := extentEnd attr (maxCluster vol attr + 1)) []
      hfull.length_pos rfl
    constructor
    · rw [hbefore]
      exact prefix_append _ _
    · rw [hbefore]
      exact ⟨_, [], rfl, rfl, hfull, hfits, fun _ => .inr ⟨hbase, maxCluster_add_one hbits hmax⟩⟩
  next hlast =>
    have hbefore := beforeEnd_append (t := extentEnd attr x.vcn) [] hspans.length_pos rfl
    constructor
    · exact ⟨[], by rw [hbefore, append_nil]⟩
    · rw [hbefore]
      refine ⟨_, [], rfl, rfl, hspans, hend, fun hne => .inl ?_⟩
      change x.vcn = attr.highestVcn + 1
      omega

/-- An array that holds everything up to its first element of length zero was
read from clean mapping pairs. -/
lemma WellParsed.cleanPairs (hparsed : WellParsed vol attr x.runs rl) :
    CleanPairs vol attr x.runs := by
  obtain ⟨hlow, s, _, hloop, _, _, hlength, hclose⟩ := mappingPairsDecompress_cases hrl
  obtain ⟨hcovers, t, slack, heq, _, hspans, hfits, _⟩ := hparsed
  obtain ⟨rest, hbefore⟩ := hcovers
  rw [← hbefore] at hspans
  obtain ⟨mid, hfront, hrest⟩ := spans_append_iff.mp hspans
  have hpos : ∀ e ∈ x.runs, 0 < e.length := fun e he =>
    hfront.length_pos e (mem_append_right _ he)
  obtain ⟨first, hbase, hruns⟩ := spans_append_iff.mp hfront
  have hfirst : first = attr.lowestVcn := by
    have hsum := hbase.eq_add_sum
    rw [(unmappedBefore_spans hlow).eq_add_sum, hsum]
  refine ⟨hpos, ?_, ?_⟩
  · have hsum := hruns.eq_add_sum
    have hle := hrest.le
    rw [isS64_iff] at hfits
    omega
  · -- The elements before the end have distinct indices, all below the limit.
    have hshort : (beforeEnd rl).length < rl.length := by
      conv_rhs => rw [heq]
      simp
    have hcount : (unmappedBefore attr.lowestVcn).length + x.runs.length ≤
        (beforeEnd rl).length := by
      rw [← hbefore]
      simp
    have hroom : (unmappedBefore attr.lowestVcn).length + x.runs.length < 65536 := by
      have hbound : rl.length ≤ 65536 := by
        obtain ⟨_, ⟨_, rfl⟩ | ⟨_, rfl⟩⟩ := closeRunlist_cases hclose
        · exact putElement_length_le (putElement_length_le hlength)
        · exact putElement_length_le hlength
      omega
    split
    next hmore =>
      by_contra hlimit
      -- The terminator would be stored at index zero.
      obtain ⟨hdecoded, _⟩ := decodeLoop_initial hx hroom
      have hs := Except.ok.inj (hloop.symm.trans hdecoded)
      subst hs
      obtain ⟨_, ⟨_, hput⟩ | ⟨hlast, _⟩⟩ := closeRunlist_cases hclose
      · have hwrap : (UInt16.ofNat ((unmappedBefore attr.lowestVcn).length + x.runs.length) +
            1).toNat = 0 := by
          have hone : (1 : UInt16).toNat = 1 := rfl
          rw [UInt16.toNat_add, UInt16.toNat_ofNat']
          omega
        rw [hwrap] at hput
        have hempty : beforeEnd rl = [] := by
          rw [hput]
          rfl
        rw [hempty] at hcount
        simp only [length_nil] at hcount
        omega
      · exact hlast hmore
    next => omega

end

/-- An accepted record gives a runlist that ends where its mapping pairs end,
with every run in it, exactly when all stored lengths are positive, their sum is
a 64-bit cluster number, and the array index does not wrap. -/
theorem mappingPairsDecompress_wellParsed_iff (hbits : vol.clusterSizeBits < 32)
    (hrl : mappingPairsDecompress vol attr = .ok rl) :
    ∃ x, expandPairs attr attr.mappingPairsOffset attr.lowestVcn 0 = .ok x ∧
      (WellParsed vol attr x.runs rl ↔ CleanPairs vol attr x.runs) := by
  obtain ⟨_, _, x, _, hx, _⟩ := mappingPairsDecompress_cases hrl
  refine ⟨x, hx, ?_⟩
  constructor
  · intro hparsed
    exact hparsed.cleanPairs hx hrl
  · intro hclean
    exact hclean.wellParsed hx hrl hbits

end Accepted

/-- A base extent with a hole of four clusters and five clusters from 16 on. -/
def sparseRecord : AttrRecord := recordOf 0 8 36864 [0x01, 4, 0x11, 5, 16, 0, 0, 0]

theorem mappingPairsDecompress_wellParsed_sparse :
    mappingPairsDecompress volume31 sparseRecord =
        .ok [⟨0, lcnHole, 4⟩, ⟨4, 16, 5⟩, ⟨9, lcnEnoent, 0⟩] ∧
      ∃ x, expandPairs sparseRecord sparseRecord.mappingPairsOffset sparseRecord.lowestVcn 0 =
          .ok x ∧
        (WellParsed volume31 sparseRecord x.runs [⟨0, lcnHole, 4⟩, ⟨4, 16, 5⟩, ⟨9, lcnEnoent, 0⟩] ↔
          CleanPairs volume31 sparseRecord x.runs) := by
  have hrl : mappingPairsDecompress volume31 sparseRecord =
      .ok [⟨0, lcnHole, 4⟩, ⟨4, 16, 5⟩, ⟨9, lcnEnoent, 0⟩] := by decide +kernel
  exact ⟨hrl, mappingPairsDecompress_wellParsed_iff (by decide) hrl⟩

/-- A base extent whose first pair stores a hole of no clusters. -/
def emptyRunRecord : AttrRecord := recordOf 0 4 20480 [0x01, 0, 0x11, 5, 16, 0, 0, 0]

/-- The empty run is accepted, and the runlist ends before the clusters after it. -/
theorem mappingPairsDecompress_emptyRun :
    mappingPairsDecompress volume31 emptyRunRecord =
        .ok [⟨0, lcnHole, 0⟩, ⟨0, 16, 5⟩, ⟨5, lcnEnoent, 0⟩] ∧
      (expandPairs emptyRunRecord 64 0 0).map (·.runs) = .ok [⟨0, lcnHole, 0⟩, ⟨0, 16, 5⟩] ∧
        ¬ WellParsed volume31 emptyRunRecord [⟨0, lcnHole, 0⟩, ⟨0, 16, 5⟩]
          [⟨0, lcnHole, 0⟩, ⟨0, 16, 5⟩, ⟨5, lcnEnoent, 0⟩] := by
  refine ⟨by decide +kernel, by decide +kernel, ?_⟩
  intro hparsed
  have hempty : beforeEnd [⟨0, lcnHole, 0⟩, ⟨0, 16, 5⟩, ⟨5, lcnEnoent, 0⟩] = [] := rfl
  have hcovers := hparsed.covers
  rw [hempty, prefix_nil] at hcovers
  exact cons_ne_nil _ _ (append_eq_nil_iff.mp hcovers).2

/-! ## The bytes that are read -/

namespace AttrRecord

variable (attr : AttrRecord) (buf : Nat)

/-- The number of bytes of the length in the pair at `buf`. -/
def lengthBytes : Nat := (attr.mem.getD buf 0).toNat % 16

/-- The number of bytes of the change of the cluster number. -/
def lcnBytes : Nat := (attr.mem.getD buf 0).toNat / 16

def runLength : Int :=
  s64 (SignedBytes.decode ((attr.mem.drop (buf + 1)).take (attr.lengthBytes buf)))

def runChange : Int :=
  s64 (SignedBytes.decode
    ((attr.mem.drop (buf + attr.lengthBytes buf + 1)).take (attr.lcnBytes buf)))

/-- The pair at `buf` has its length inside the record, and the length is accepted. -/
structure LengthInside : Prop where
  stored : attr.lengthBytes buf ≠ 0
  inside : buf + attr.lengthBytes buf < attr.length
  nonneg : 0 ≤ attr.runLength buf

/-- The last byte of the length, or of the cluster number behind an accepted length, is the
first byte behind the record. -/
def EndsBehind : Prop :=
  buf < attr.length ∧ attr.lengthBytes buf ≠ 0 ∧ buf + attr.lengthBytes buf = attr.length ∨
    attr.LengthInside buf ∧ attr.lcnBytes buf ≠ 0 ∧
      buf + (attr.lengthBytes buf + attr.lcnBytes buf) = attr.length

/-- The pair behind an accepted one, and the cluster number to which it refers. -/
inductive NextPair : Nat × Int → Nat × Int → Prop
  | hole {buf : Nat} (hlength : attr.LengthInside buf) (hlcn : attr.lcnBytes buf = 0) :
    NextPair (buf, lcn) (buf + (attr.lengthBytes buf + attr.lcnBytes buf + 1), lcn)
  | run {buf : Nat} (hlength : attr.LengthInside buf) (hlcn : attr.lcnBytes buf ≠ 0)
      (hin : buf + (attr.lengthBytes buf + attr.lcnBytes buf) < attr.length)
      (hlow : -1 ≤ s64 (lcn + attr.runChange buf)) :
    NextPair (buf, lcn) (buf + (attr.lengthBytes buf + attr.lcnBytes buf + 1),
      s64 (lcn + attr.runChange buf))

/-- From `p` on there is a pair behind accepted ones only that ends behind the record. -/
def LeavesFrom (p : Nat × Int) : Prop :=
  ∃ q, Relation.ReflTransGen attr.NextPair p q ∧ attr.EndsBehind q.1

/-- What one pass of the decoding loop does with the pair at `buf`. -/
inductive PairOutcome (lcn : Int) : Except Failure (RunlistElement × Int) → Prop
  | behind (hbehind : attr.EndsBehind buf) : PairOutcome lcn (.error .outOfBounds)
  | refused (hinside : ¬ attr.EndsBehind buf) (hlast : ∀ p, ¬ attr.NextPair (buf, lcn) p) :
    PairOutcome lcn (.error (.errno .eio))
  | accepted (hinside : ¬ attr.EndsBehind buf)
      (hnext : ∀ p, attr.NextPair (buf, lcn) p ↔
        p = (buf + (attr.lengthBytes buf + attr.lcnBytes buf + 1), lcn')) :
    PairOutcome lcn (.ok (e, lcn'))

variable {attr buf}

lemma NextPair.lengthInside (hnext : attr.NextPair (buf, lcn) p) : attr.LengthInside buf := by
  cases hnext with
  | hole hlength => exact hlength
  | run hlength => exact hlength

section

variable (hlength : attr.LengthInside buf)
include hlength

lemma LengthInside.endsBehind_iff : attr.EndsBehind buf ↔
    attr.lcnBytes buf ≠ 0 ∧ buf + (attr.lengthBytes buf + attr.lcnBytes buf) = attr.length := by
  constructor
  · rintro (⟨_, _, hend⟩ | ⟨_, hbehind⟩)
    · exact absurd hend (ne_of_lt hlength.inside)
    · exact hbehind
  · intro hbehind
    exact .inr ⟨hlength, hbehind⟩

lemma LengthInside.nextPair_hole (lcn : Int) (hhole : attr.lcnBytes buf = 0) (p : Nat × Int) :
    attr.NextPair (buf, lcn) p ↔
      p = (buf + (attr.lengthBytes buf + attr.lcnBytes buf + 1), lcn) := by
  constructor
  · rintro (_ | ⟨_, hlcn⟩)
    · rfl
    · exact absurd hhole hlcn
  · rintro rfl
    exact .hole hlength hhole

lemma LengthInside.nextPair_run (lcn : Int) (hlcn : attr.lcnBytes buf ≠ 0) (p : Nat × Int) :
    attr.NextPair (buf, lcn) p ↔
      buf + (attr.lengthBytes buf + attr.lcnBytes buf) < attr.length ∧
        -1 ≤ s64 (lcn + attr.runChange buf) ∧
        p = (buf + (attr.lengthBytes buf + attr.lcnBytes buf + 1),
          s64 (lcn + attr.runChange buf)) := by
  constructor
  · rintro (⟨_, hhole⟩ | ⟨_, _, hin, hlow⟩)
    · exact absurd hhole hlcn
    · exact ⟨hin, hlow, rfl⟩
  · rintro ⟨hin, hlow, rfl⟩
    exact .run hlength hlcn hin hlow

end

lemma leavesFrom_iff : attr.LeavesFrom p ↔
    attr.EndsBehind p.1 ∨ ∃ q, attr.NextPair p q ∧ attr.LeavesFrom q := by
  constructor
  · rintro ⟨q, hpairs, hbehind⟩
    rcases hpairs.cases_head with rfl | ⟨r, hnext, hrest⟩
    · exact .inl hbehind
    · exact .inr ⟨r, hnext, q, hrest, hbehind⟩
  · rintro (hbehind | ⟨r, hnext, q, hrest, hbehind⟩)
    · exact ⟨p, .refl, hbehind⟩
    · exact ⟨q, .head hnext hrest, hbehind⟩

/-- Without a byte of the length inside the record there is nothing to read. -/
lemma not_leavesFrom_of_stop (hstop : attr.length ≤ buf ∨ attr.lengthBytes buf = 0) :
    ¬ attr.LeavesFrom (buf, lcn) := by
  have hrefused : ¬ attr.LengthInside buf := by
    intro hlength
    have := hlength.stored
    have := hlength.inside
    omega
  rw [leavesFrom_iff]
  rintro ((⟨hbuf, hstored, _⟩ | ⟨hlength, _⟩) | ⟨q, hnext, _⟩)
  · rcases hstop with hend | hnone
    · exact hbuf.not_ge hend
    · exact hstored hnone
  · exact hrefused hlength
  · exact hrefused hnext.lengthInside

/-- A pair without an accepted length ends the decoding. -/
lemma PairOutcome.of_length (hrefused : ¬ attr.LengthInside buf)
    (hinside : buf < attr.length → attr.lengthBytes buf ≠ 0 →
      buf + attr.lengthBytes buf ≠ attr.length) :
    attr.PairOutcome buf lcn (.error (.errno .eio)) := by
  refine .refused ?_ fun p hnext => hrefused hnext.lengthInside
  rintro (⟨hbuf, hstored, hend⟩ | ⟨hlength, _⟩)
  · exact hinside hbuf hstored hend
  · exact hrefused hlength

end AttrRecord

section Behind

variable {attr : AttrRecord} (hmem : attr.mem.length = attr.length)
include hmem

lemma readDelta_inside (hk : k ≠ 0) (hin : pos + k < attr.length) :
    readDelta attr.mem pos (k - 1) =
      .ok (s64 (SignedBytes.decode ((attr.mem.drop (pos + 1)).take k))) := by
  have hlen : ((attr.mem.drop (pos + 1)).take k).length = k := by
    rw [length_take, length_drop]
    omega
  have hholds : HoldsAt attr.mem (pos + 1) ((attr.mem.drop (pos + 1)).take k) := by
    intro i hi
    simp
  have hread := readDelta_decode (ne_nil_of_length_pos (by omega)) hholds
  rwa [hlen] at hread

/-- The last byte of a number is read first. -/
lemma readDelta_behind (hk : k ≠ 0) (hend : pos + k = attr.length) :
    readDelta attr.mem pos (k - 1) = .error .outOfBounds := by
  have hpos : pos + (k - 1 + 1) = attr.mem.length := by omega
  have hlast : attr.mem[pos + (k - 1 + 1)]? = none := getElem?_eq_none hpos.ge
  rw [readDelta, load, hlast]
  rfl

lemma decodeRun_outcome (vcn lcn : Int) (hbuf : buf < attr.length) :
    attr.PairOutcome buf lcn (decodeRun attr buf (attr.mem.getD buf 0) vcn lcn) := by
  have hb : (attr.mem.getD buf 0).toNat % 16 = attr.lengthBytes buf := rfl
  have hb2 : (attr.mem.getD buf 0).toNat / 16 = attr.lcnBytes buf := rfl
  rw [decodeRun, hb, hb2]
  by_cases hstored : attr.lengthBytes buf = 0
  · rw [if_pos hstored]
    exact .of_length (fun hlength => hlength.stored hstored) fun _ h => absurd hstored h
  rw [if_neg hstored]
  by_cases hlong : attr.length < buf + attr.lengthBytes buf
  · rw [if_pos hlong]
    exact .of_length (fun hlength => by have := hlength.inside; omega) fun _ _ => by omega
  rw [if_neg hlong]
  by_cases hend : buf + attr.lengthBytes buf = attr.length
  · rw [readDelta_behind hmem hstored hend]
    exact .behind (.inl ⟨hbuf, hstored, hend⟩)
  have hin : buf + attr.lengthBytes buf < attr.length := by omega
  rw [readDelta_inside hmem hstored hin, ← AttrRecord.runLength]
  simp only [bind, Except.bind, pure, Except.pure]
  by_cases hneg : attr.runLength buf < 0
  · rw [if_pos hneg]
    exact .of_length (fun hlength => by have := hlength.nonneg; omega) fun _ _ => hend
  rw [if_neg hneg]
  have hlength : attr.LengthInside buf := ⟨hstored, hin, not_lt.mp hneg⟩
  have hbehind := hlength.endsBehind_iff
  by_cases hhole : attr.lcnBytes buf = 0
  · rw [if_pos hhole]
    exact .accepted (fun h => (hbehind.mp h).1 hhole) (hlength.nextPair_hole lcn hhole)
  have hnext := hlength.nextPair_run lcn hhole
  rw [if_neg hhole]
  by_cases hlong2 : attr.length < buf + (attr.lengthBytes buf + attr.lcnBytes buf)
  · rw [if_pos hlong2]
    refine .refused (fun h => ?_) fun p h => ?_
    · exact hlong2.ne' (hbehind.mp h).2
    · exact hlong2.not_gt ((hnext p).mp h).1
  rw [if_neg hlong2]
  by_cases hend2 : buf + (attr.lengthBytes buf + attr.lcnBytes buf) = attr.length
  · rw [readDelta_behind hmem hhole (by omega)]
    exact .behind (hbehind.mpr ⟨hhole, hend2⟩)
  have hinside : ¬ attr.EndsBehind buf := fun h => hend2 (hbehind.mp h).2
  rw [readDelta_inside hmem hhole (by omega), ← AttrRecord.runChange]
  dsimp only
  by_cases hlow : s64 (lcn + attr.runChange buf) < -1
  · rw [if_pos hlow]
    exact .refused hinside fun p h => hlow.not_ge ((hnext p).mp h).2.1
  · rw [if_neg hlow]
    refine .accepted hinside fun p => (hnext p).trans ?_
    exact ⟨fun h => h.2.2, fun h => ⟨by omega, not_lt.mp hlow, h⟩⟩

/-- The loop leaves the record exactly if it comes to a pair that does. -/
lemma decodeLoop_behind_iff :
    decodeLoop attr s = .error .outOfBounds ↔ attr.LeavesFrom (s.buf, s.lcn) := by
  induction hk : attr.length - s.buf using Nat.strongRecOn generalizing s with
  | ind k ih =>
    rw [decodeLoop]
    split
    next hbuf =>
      rw [load_inside (hmem ▸ hbuf)]
      dsimp only
      split
      next hzero =>
        have hstop : attr.lengthBytes s.buf = 0 := by
          rw [AttrRecord.lengthBytes, hzero]
          rfl
        exact iff_of_false (by simp) (AttrRecord.not_leavesFrom_of_stop (.inr hstop))
      next hzero =>
        have hrun := decodeRun_outcome hmem s.vcn s.lcn hbuf
        rw [AttrRecord.leavesFrom_iff]
        generalize decodeRun attr s.buf (attr.mem.getD s.buf 0) s.vcn s.lcn = run at hrun
        cases hrun with
        | behind hbehind => exact iff_of_true rfl (.inl hbehind)
        | refused hinside hlast =>
          refine iff_of_false (by simp) ?_
          rintro (hbehind | ⟨q, hnext, _⟩)
          · exact hinside hbehind
          · exact hlast q hnext
        | accepted hinside hnext =>
          dsimp only
          rw [ih _ ?_ rfl]
          · simp only [hinside, hnext, false_or, exists_eq_left]
            rfl
          · dsimp only
            omega
    next hbuf =>
      exact iff_of_false (by simp) (AttrRecord.not_leavesFrom_of_stop (.inl (not_lt.mp hbuf)))

end Behind

lemma closeRunlist_inside : closeRunlist vol attr s ≠ .error .outOfBounds := by
  unfold closeRunlist
  dsimp only
  split_ifs <;> simp

/-- In a record whose memory ends with it, every read is inside the record exactly if the
pairs are not read at all, or no pair behind accepted ones has its last byte behind the
record. -/
theorem mappingPairsDecompress_inside_iff (hmem : attr.mem.length = attr.length) :
    mappingPairsDecompress vol attr ≠ .error .outOfBounds ↔
      attr.nonResident = false ∨ attr.lowestVcn < 0 ∨
        ¬ attr.LeavesFrom (attr.mappingPairsOffset, 0) := by
  have hloop := decodeLoop_behind_iff hmem (s := initialDecodeState attr)
  rw [initialDecodeState_eq] at hloop
  rw [mappingPairsDecompress]
  split
  next hinvalid =>
    refine iff_of_true (by simp) ?_
    exact hinvalid.imp_right .inl
  next hvalid =>
    split
    next hoff =>
      refine iff_of_true (by simp) (.inr (.inr ?_))
      exact AttrRecord.not_leavesFrom_of_stop (.inl hoff.le)
    next hoff =>
      rw [← or_assoc, or_iff_right hvalid, ← hloop, not_iff_not, ← initialDecodeState_eq]
      cases decodeLoop attr (initialDecodeState attr) with
      | error failure => simp [bind, Except.bind]
      | ok s =>
        refine iff_of_false ?_ (by simp)
        simp only [bind, Except.bind]
        split
        · simp [throw, throwThe, MonadExceptOf.throw]
        · exact closeRunlist_inside

theorem mappingPairsDecompress_inside_sparse :
    sparseRecord.mem.length = sparseRecord.length ∧
      mappingPairsDecompress volume31 sparseRecord ≠ .error .outOfBounds ∧
        ¬ sparseRecord.LeavesFrom (sparseRecord.mappingPairsOffset, 0) := by
  have hmem : sparseRecord.mem.length = sparseRecord.length := by decide +kernel
  have hinside : mappingPairsDecompress volume31 sparseRecord ≠ .error .outOfBounds := by
    decide +kernel
  refine ⟨hmem, hinside, ?_⟩
  rcases (mappingPairsDecompress_inside_iff hmem).mp hinside with hresident | hlow | hpairs
  · exact absurd hresident (by decide +kernel)
  · exact absurd hlow (by decide +kernel)
  · exact hpairs

/-- A base extent with two runs, and the start of a third one in the last byte. -/
def lastByteRecord : AttrRecord := recordOf 0 1 8192 [0x11, 1, 16, 0x21, 1, 0, 1, 0x01]

/-- The length of the third run is read behind the record. -/
theorem mappingPairsDecompress_last_byte :
    lastByteRecord.mem.length = lastByteRecord.length ∧ lastByteRecord.length = 72 ∧
      lastByteRecord.mappingPairsOffset = 64 ∧
        mappingPairsDecompress volume31 lastByteRecord = .error .outOfBounds := by
  decide +kernel

end NtfsDxe
