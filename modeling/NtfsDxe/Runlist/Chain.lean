import NtfsDxe.Runlist.MappingPairs

/-! # The partial map described by a runlist

What a runlist means is a partial map from attribute clusters to volume
clusters. A chain of runs covers an interval of attribute clusters without gap
or overlap; looking a cluster up in the array agrees with the map, and entering
the array at a start cluster restricts the map.
-/

namespace NtfsDxe

open List

/-- The runs cover the attribute clusters from `a` up to `b` in order. -/
def Chain : Int → List RunlistElement → Int → Prop
  | a, [], b => a = b
  | a, e :: rest, b =>
    e.vcn = a ∧ 0 < e.length ∧ lcnHole ≤ e.lcn ∧ Chain (a + e.length) rest b

/-- The volume cluster of one attribute cluster of a run. -/
def RunlistElement.lcnOf (e : RunlistElement) (vcn : Int) : Int :=
  if 0 ≤ e.lcn then e.lcn + (vcn - e.vcn) else e.lcn

/-- The partial map described by a list of runs. -/
def lcnAt : List RunlistElement → Int → Option Int
  | [], _ => none
  | e :: rest, vcn =>
    if e.vcn ≤ vcn ∧ vcn < e.vcn + e.length then some (e.lcnOf vcn) else lcnAt rest vcn

/-- The restriction of a partial map to the clusters from `a` up to `b`. -/
def restrictTo (a b : Int) (f : Int → Option Int) (vcn : Int) : Option Int :=
  if a ≤ vcn ∧ vcn < b then f vcn else none

variable {a b c vcn startVcn : Int}

lemma Chain.le (hchain : Chain a runs b) : a ≤ b := by
  induction runs generalizing a with
  | nil => exact le_of_eq hchain
  | cons e rest ih =>
    obtain ⟨_, hpos, _, hrest⟩ := hchain
    have := ih hrest
    omega

lemma Chain.append (hxs : Chain a xs b) (hys : Chain b ys c) : Chain a (xs ++ ys) c := by
  induction xs generalizing a with
  | nil => rwa [show a = b from hxs]
  | cons e rest ih =>
    obtain ⟨hvcn, hpos, hlcn, hrest⟩ := hxs
    exact ⟨hvcn, hpos, hlcn, ih hrest⟩

lemma Chain.of_append (hchain : Chain a (xs ++ ys) c) : ∃ b, Chain a xs b ∧ Chain b ys c := by
  induction xs generalizing a with
  | nil => exact ⟨a, rfl, hchain⟩
  | cons e rest ih =>
    obtain ⟨hvcn, hpos, hlcn, hrest⟩ := hchain
    obtain ⟨b, hxs, hys⟩ := ih hrest
    exact ⟨b, ⟨hvcn, hpos, hlcn, hxs⟩, hys⟩

/-- The first run after a chain starts where the chain ends. -/
lemma Chain.nextVcn_append (hchain : Chain a runs b) (ht : t.vcn = b) :
    nextVcn (runs ++ [t]) = a := by
  cases runs with
  | nil => exact ht.trans (show b = a from hchain.symm)
  | cons e rest => exact hchain.1

/-- A well-formed array is a chain of runs followed by its terminator. -/
lemma Contiguous.exists_chain (hrl : Contiguous rl) :
    ∃ runs t, rl = runs ++ [t] ∧ t.length = 0 ∧ t.vcn = endVcn rl ∧
      Chain (nextVcn rl) runs (endVcn rl) := by
  induction rl with
  | nil => exact absurd hrl (by simp [Contiguous])
  | cons e rest ih =>
    cases rest with
    | nil => exact ⟨[], e, rfl, hrl, rfl, rfl⟩
    | cons e' rest =>
      obtain ⟨hpos, hlcn, hvcn, hrest⟩ := hrl
      obtain ⟨runs, t, heq, hlen, ht, hchain⟩ := ih hrest
      refine ⟨e :: runs, t, by rw [heq]; rfl, hlen, ht, rfl, hpos, hlcn, ?_⟩
      rw [nextVcn_cons, hvcn] at hchain
      exact hchain

/-! ## The map of a chain -/

lemma lcnAt_append : lcnAt (xs ++ ys) vcn = (lcnAt xs vcn).or (lcnAt ys vcn) := by
  induction xs with
  | nil => rfl
  | cons e rest ih =>
    simp only [cons_append, lcnAt]
    split
    · rfl
    · exact ih

/-- A chain maps nothing outside its interval. -/
lemma Chain.lcnAt_eq_none (hchain : Chain a runs b) (hout : vcn < a ∨ b ≤ vcn) :
    lcnAt runs vcn = none := by
  induction runs generalizing a with
  | nil => rfl
  | cons e rest ih =>
    obtain ⟨hvcn, hpos, _, hrest⟩ := hchain
    have hle := hrest.le
    rw [lcnAt, if_neg (by omega)]
    exact ih hrest (by omega)

/-- A chain maps every cluster of its interval. -/
lemma Chain.lcnAt_isSome (hchain : Chain a runs b) (hin : a ≤ vcn ∧ vcn < b) :
    (lcnAt runs vcn).isSome := by
  induction runs generalizing a with
  | nil =>
    have hab : a = b := hchain
    omega
  | cons e rest ih =>
    obtain ⟨hvcn, hpos, _, hrest⟩ := hchain
    rw [lcnAt]
    split
    · rfl
    · exact ih hrest (by omega)

/-- The lookup loop computes the map, with 64-bit cluster numbers. -/
lemma findLcn_eq_lcnAt (hchain : Chain a runs b) (ht : t.vcn = b)
    (hrange : ∀ e ∈ runs, LcnInRange e) (ha : a ≤ vcn) (hlcn : lcnAt runs vcn = some lcn) :
    findLcn (runs ++ [t]) vcn = lcn := by
  induction runs generalizing a with
  | nil => cases hlcn
  | cons e rest ih =>
    obtain ⟨hvcn, hpos, _, hrest⟩ := hchain
    have hnext := hrest.nextVcn_append ht
    rw [cons_append, findLcn, if_neg (by omega)]
    rw [lcnAt] at hlcn
    split at hlcn
    next hin =>
      rw [if_pos (by omega)]
      injection hlcn with hlcn
      rw [RunlistElement.lcnOf] at hlcn
      split at hlcn
      next hmapped =>
        have hfits : IsS64 (e.lcn + (vcn - e.vcn)) := by
          have hlast := hrange e mem_cons_self
          rw [isS64_iff]
          unfold LcnInRange at hlast
          omega
        rw [if_pos hmapped, s64_of_isS64 hfits, hlcn]
      next hhole => rw [if_neg hhole, hlcn]
    next hout =>
      rw [if_neg (by omega)]
      exact ih hrest (fun e he => hrange e (mem_cons_of_mem _ he)) (by omega) hlcn

/-! ## Entering a chain at a start cluster -/

/-- The part of a run from `startVcn` on. -/
def RunlistElement.dropTo (e : RunlistElement) (startVcn : Int) : RunlistElement :=
  { vcn := startVcn
    lcn := partialLcn e (startVcn - e.vcn)
    length := e.length - (startVcn - e.vcn) }

/-- The runs from `startVcn` on, the first one possibly entered in the middle. -/
def clipRuns (startVcn : Int) : List RunlistElement → List RunlistElement
  | [] => []
  | e :: rest =>
    if e.vcn + e.length ≤ startVcn then clipRuns startVcn rest
    else if e.vcn < startVcn then e.dropTo startVcn :: rest
    else e :: rest

/-- Skipping to the start cluster stops at the run that contains it. -/
lemma skipTo_chain (hchain : Chain a runs b) (ht : t.vcn = b) (hlen : t.length = 0)
    (ha : a ≤ startVcn) (hb : startVcn ≤ b) :
    (∃ front e rest, runs = front ++ e :: rest ∧ skipTo startVcn (runs ++ [t]) = e :: rest ++ [t] ∧
      e.vcn ≤ startVcn ∧ startVcn < e.vcn + e.length ∧ Chain e.vcn (e :: rest) b ∧
      clipRuns startVcn runs = if e.vcn < startVcn then e.dropTo startVcn :: rest else e :: rest) ∨
    (startVcn = b ∧ skipTo startVcn (runs ++ [t]) = [t] ∧ clipRuns startVcn runs = []) := by
  induction runs generalizing a with
  | nil =>
    have hab : a = b := hchain
    refine .inr ⟨by omega, ?_, rfl⟩
    rw [nil_append, skipTo, if_neg (by simp [hlen])]
  | cons e rest ih =>
    obtain ⟨hvcn, hpos, hlcn, hrest⟩ := hchain
    have hnext := hrest.nextVcn_append ht
    by_cases hskip : a + e.length ≤ startVcn
    · have hskipTo : skipTo startVcn (e :: rest ++ [t]) = skipTo startVcn (rest ++ [t]) := by
        rw [cons_append, skipTo, if_pos ⟨by omega, by omega⟩]
      have hclip : clipRuns startVcn (e :: rest) = clipRuns startVcn rest := by
        rw [clipRuns, if_pos (by omega)]
      rw [hskipTo, hclip]
      rcases ih hrest hskip with ⟨front, e', rest', heq, hfound⟩ | hend
      · exact .inl ⟨e :: front, e', rest', by rw [heq]; rfl, hfound⟩
      · exact .inr hend
    · refine .inl ⟨[], e, rest, rfl, ?_, by omega, by omega, ⟨rfl, hpos, hlcn, hvcn ▸ hrest⟩, ?_⟩
      · rw [cons_append, skipTo, if_neg (by omega)]
      · rw [clipRuns, if_neg (by omega)]

lemma RunlistElement.dropTo_length (e : RunlistElement) (startVcn : Int) :
    (e.dropTo startVcn).length = e.length - (startVcn - e.vcn) := rfl

section

variable (hrange : LcnInRange e) (hin : e.vcn ≤ startVcn ∧ startVcn < e.vcn + e.length)
include hrange hin

/-- The cluster number of the remaining part of a run does not overflow. -/
lemma RunlistElement.dropTo_lcn : (e.dropTo startVcn).lcn = e.lcnOf startVcn := by
  unfold LcnInRange at hrange
  change (if 0 ≤ e.lcn then s64 (e.lcn + (startVcn - e.vcn)) else e.lcn) = _
  rw [RunlistElement.lcnOf]
  split
  next hmapped =>
    apply s64_of_isS64
    rw [isS64_iff]
    omega
  next => rfl

lemma RunlistElement.dropTo_lcnInRange : LcnInRange (e.dropTo startVcn) := by
  right
  rw [e.dropTo_lcn hrange hin, e.dropTo_length, RunlistElement.lcnOf]
  unfold LcnInRange at hrange
  split <;> omega

lemma RunlistElement.dropTo_hole_le (hlcn : lcnHole ≤ e.lcn) :
    lcnHole ≤ (e.dropTo startVcn).lcn := by
  rw [e.dropTo_lcn hrange hin, RunlistElement.lcnOf]
  split <;> omega

/-- Entering a run in the middle maps its clusters as the whole run does. -/
lemma RunlistElement.dropTo_lcnOf : (e.dropTo startVcn).lcnOf vcn = e.lcnOf vcn := by
  have hvcn : (e.dropTo startVcn).vcn = startVcn := rfl
  rw [RunlistElement.lcnOf, e.dropTo_lcn hrange hin]
  unfold RunlistElement.lcnOf
  by_cases hmapped : 0 ≤ e.lcn
  · omega
  · simp only [hmapped, if_false]

end

section

variable (hchain : Chain a runs b) (hrange : ∀ e ∈ runs, LcnInRange e) (ha : a ≤ startVcn)
  (hb : startVcn ≤ b)
include hchain hrange ha hb

lemma Chain.clipRuns : Chain startVcn (clipRuns startVcn runs) b := by
  induction runs generalizing a with
  | nil =>
    have hab : a = b := hchain
    exact show startVcn = b by omega
  | cons e rest ih =>
    obtain ⟨hvcn, hpos, hlcn, hrest⟩ := hchain
    rw [NtfsDxe.clipRuns]
    split
    next hskip => exact ih hrest (fun e he => hrange e (mem_cons_of_mem _ he)) (by omega)
    next hnot =>
      split
      next hmid =>
        refine ⟨rfl, ?_, e.dropTo_hole_le (hrange e mem_cons_self) (by omega) hlcn, ?_⟩
        · rw [e.dropTo_length]
          omega
        · have hsum : startVcn + (e.dropTo startVcn).length = a + e.length := by
            rw [e.dropTo_length]
            omega
          rwa [hsum]
      next hat =>
        have hstart : startVcn = a := by omega
        subst hstart
        exact ⟨hvcn, hpos, hlcn, hrest⟩

lemma lcnAt_clipRuns (vcn : Int) :
    lcnAt (clipRuns startVcn runs) vcn = restrictTo startVcn b (lcnAt runs) vcn := by
  unfold restrictTo
  split
  next hin =>
    induction runs generalizing a with
    | nil => rfl
    | cons e rest ih =>
      obtain ⟨hvcn, hpos, hlcn, hrest⟩ := hchain
      rw [clipRuns]
      split
      next hskip =>
        rw [ih hrest (fun e he => hrange e (mem_cons_of_mem _ he)) (by omega), lcnAt,
          if_neg (by omega)]
      next hnot =>
        split
        next hmid =>
          rw [lcnAt, lcnAt, e.dropTo_lcnOf (hrange e mem_cons_self) (by omega)]
          have hsum : startVcn + (e.dropTo startVcn).length = e.vcn + e.length := by
            rw [e.dropTo_length]
            omega
          have hvcn' : (e.dropTo startVcn).vcn = startVcn := rfl
          rw [hvcn', hsum]
          by_cases hbefore : vcn < e.vcn + e.length
          · rw [if_pos ⟨hin.1, hbefore⟩, if_pos ⟨by omega, hbefore⟩]
          · rw [if_neg (by omega), if_neg (by omega)]
        next => rfl
  next hout => exact (hchain.clipRuns hrange ha hb).lcnAt_eq_none (by omega)

end

end NtfsDxe
