import NtfsDxe.Runlist.ArrayMerge

/-! # Merging is overlaying

Whatever of the four operations the driver selects, the runs in the array
afterwards are the overlay of the destination with the mapped runs of the
source, up to joined neighbours.
-/

namespace NtfsDxe

open List Bool

variable {heap : RunlistHeap}

/-! ## Joined ends -/

lemma Spans.getLast_stopVcn (hspans : Spans a runs b)
    (hlast : runs.getLast? = some l) : l.stopVcn = b := by
  rcases eq_nil_or_concat' runs with rfl | ⟨init, l', rfl⟩
  · cases hlast
  rw [getLast?_concat] at hlast
  cases hlast
  obtain ⟨mid, _, hvcn, _, _, hend⟩ := spans_append_iff.mp hspans
  rw [← hvcn] at hend
  exact hend

/-- In a covered interval the end marker stands after the last run. -/
lemma endFits_of_spans (hspans : Spans a (front ++ post) b)
    (ht : t.vcn = b) : EndFits front (post ++ [t]) := by
  intro l hl h hh hend
  cases post with
  | nil =>
    rw [append_nil] at hspans
    cases hh
    rw [ht, hspans.getLast_stopVcn hl]
  | cons g post =>
    cases hh
    obtain ⟨_, _, _, _, hlcn, _⟩ := spans_append_iff.mp hspans
    rw [hend] at hlcn
    exact absurd hlcn (by decide)

/-- Joining the right end of the source is joining adjacent runs; the terminator
is never joined. -/
lemma joinRight_joins (hl : lcnHole ≤ l.lcn) (ht : t.lcn < lcnHole) :
    ∃ post', afterJoin l (post ++ [t]) = post' ++ [t] ∧
      ∀ xs, Joins (xs ++ l :: post) (xs ++ joinRight l (post ++ [t]) :: post') := by
  unfold afterJoin
  cases post with
  | nil =>
    have hnot : rlAreMergeable l t = false := by
      by_contra hmerge
      have hadj := adjacent_of_mergeable (by simpa using hmerge) (.inl hl)
      exact not_lt.mpr hadj.hole_le_right ht
    refine ⟨[], by simp [joinsRight, hnot], fun xs => ?_⟩
    simp only [nil_append, joinRight, hnot]
    exact .refl _
  | cons g post =>
    simp only [cons_append, joinsRight, joinRight]
    cases hmerge : rlAreMergeable l g with
    | false => exact ⟨g :: post, rfl, fun xs => .refl _⟩
    | true =>
      exact ⟨post, rfl, fun xs => .single xs post (adjacent_of_mergeable hmerge (.inl hl))⟩

/-- Joining the left end of the source is joining adjacent runs. -/
lemma joinLeft_joins (hf : lcnHole ≤ f.lcn) :
    Joins (pre ++ f :: ys) (joinLeft pre f ++ (f :: ys).drop (joinsLeft pre f).toNat) := by
  unfold joinLeft
  cases hjoin : joinsLeft pre f with
  | false => exact .refl _
  | true =>
    rcases eq_nil_or_concat' pre with rfl | ⟨pre', p, rfl⟩
    · cases hjoin
    · have hmerge : rlAreMergeable p f = true := by simpa [joinsLeft] using hjoin
      have hsingle := Joins.single pre' ys (adjacent_of_mergeable hmerge (.inr hf))
      simpa using hsingle

/-! ## Inside a hole or an unmapped run -/

lemma Chain.first (heap : RunlistHeap) (hbody : Chain a (init ++ [l]) b) :
    (cell heap (init ++ [l]) 0).vcn = a ∧ 0 < (cell heap (init ++ [l]) 0).length ∧
      lcnHole ≤ (cell heap (init ++ [l]) 0).lcn := by
  cases init with
  | nil => exact ⟨hbody.1, hbody.2.1, hbody.2.2.1⟩
  | cons e init => exact ⟨hbody.1, hbody.2.1, hbody.2.2.1⟩

lemma Chain.last_hole_le (hbody : Chain a (init ++ [l]) b) : lcnHole ≤ l.lcn := by
  obtain ⟨mid, _, _, _, hlcn, _⟩ := hbody.of_append
  exact hlcn

lemma Chain.last_stopVcn (hbody : Chain a (init ++ [l]) b) : l.stopVcn = b :=
  hbody.spans.getLast_stopVcn getLast?_concat

/-- The source after its left end was joined, as a part of the whole list. -/
lemma drop_joinsLeft (pre : List RunlistElement) (f : RunlistElement)
    (init ys : List RunlistElement) (l : RunlistElement) :
    (init ++ l :: ys).drop (joinsLeft pre f).toNat =
      (init ++ [l]).drop (joinsLeft pre f).toNat ++ ys := by
  have hone := toNat_le (joinsLeft pre f)
  rw [← drop_append_of_le_length (by simp; omega), append_assoc, singleton_append]

/-- Joining the first run of the source, wherever the source ends. -/
lemma joinLeft_source_joins (pre ys : List RunlistElement) (l : RunlistElement)
    (hf : lcnHole ≤ (cell heap (init ++ [l]) 0).lcn) :
    Joins (pre ++ (init ++ l :: ys)) (joinLeft pre (cell heap (init ++ [l]) 0) ++
      ((init ++ [l]).drop (joinsLeft pre (cell heap (init ++ [l]) 0)).toNat ++ ys)) := by
  rw [← drop_joinsLeft]
  cases init with
  | nil => exact joinLeft_joins hf
  | cons e init => exact joinLeft_joins hf

section Inside

lemma rlReplace_overlay (hgrant : heap.Ample)
    (hspans : Spans first (pre ++ (init ++ l :: post)) t.vcn) (hbody : Chain a (init ++ [l]) b)
    (ht : t.lcn < lcnHole) :
    ∃ runs slack', rlReplace heap (pre ++ e :: (post ++ t :: slack))
      (pre.length + (post.length + 2))
        (init ++ l :: rest) (init.length + 1) pre.length = .ok (runs ++ t :: slack') ∧
      Joins (pre ++ (init ++ l :: post)) runs ∧
      runs.length + (joinsRight l (post ++ [t])).toNat +
        (joinsLeft pre (cell heap (init ++ [l]) 0)).toNat =
          pre.length + (init.length + 1) + post.length := by
  obtain ⟨post', hafter, hright⟩ := joinRight_joins hbody.last_hole_le ht
  set l' := joinRight l (post ++ [t])
  set f := cell heap (init ++ [l']) 0 with hf
  have hlcn : lcnHole ≤ f.lcn := by
    rw [firstLcn_joinRight]
    exact (hbody.first heap).2.2
  have hjoins : Joins (pre ++ (init ++ l :: post))
      (joinLeft pre f ++ ((init ++ [l']).drop (joinsLeft pre f).toNat ++ post')) := by
    have hfirst := hright (pre ++ init)
    rw [append_assoc, append_assoc] at hfirst
    exact hfirst.trans (joinLeft_source_joins pre post' l' hlcn)
  have hfits : EndFits (joinLeft pre f ++ (init ++ [l']).drop (joinsLeft pre f).toNat)
      (post' ++ [t]) := by
    have hjoined := hjoins.spans hspans
    rw [← append_assoc] at hjoined
    exact endFits_of_spans hjoined rfl
  rw [← hafter] at hfits
  obtain ⟨slack', hreplace⟩ := rlReplace_spec hgrant pre (post ++ [t]) slack init rest e l f hf.symm
    hfits
  refine ⟨_, slack', ?_, hjoins, ?_⟩
  · rw [hafter] at hreplace
    simpa using hreplace
  · have hcongr : joinsLeft pre f = joinsLeft pre (cell heap (init ++ [l]) 0) := by
      apply joinsLeft_congr
      · rw [firstVcn_joinRight]
      · rw [firstLcn_joinRight]
    have hlength := congrArg length hafter
    have hle := joinsRight_le l (post ++ [t])
    have hone := toNat_le (joinsLeft pre f)
    rw [← hcongr]
    simp only [afterJoin, length_drop, length_append, length_singleton,
      joinLeft_length] at hlength hle ⊢
    omega

/-- The destination up to the end of the source has a last run, which stops there. -/
lemma joinLeft_source_last (hsource : Spans first (pre ++ (init ++ [l])) b)
    (hf : lcnHole ≤ (cell heap (init ++ [l]) 0).lcn) :
    ∃ p, (joinLeft pre (cell heap (init ++ [l]) 0) ++ (init ++ [l]).drop
        (joinsLeft pre (cell heap (init ++ [l]) 0)).toNat).getLast? = some p ∧ p.stopVcn = b := by
  have hjoins := joinLeft_source_joins pre [] l hf
  rw [append_nil] at hjoins
  have hspans := hjoins.spans hsource
  rcases eq_nil_or_concat' (joinLeft pre (cell heap (init ++ [l]) 0) ++ (init ++ [l]).drop
    (joinsLeft pre (cell heap (init ++ [l]) 0)).toNat) with hnil | ⟨xs, p, hconcat⟩
  · have hlength := congrArg length hnil
    have hle := joinsLeft_le pre (cell heap (init ++ [l]) 0)
    simp only [length_append, joinLeft_length, length_drop, length_singleton, length_nil] at hlength
    omega
  · rw [hconcat] at hspans ⊢
    exact ⟨p, getLast?_concat, hspans.getLast_stopVcn getLast?_concat⟩

/-- A source that starts where the destination ends leaves no gap. -/
lemma gapBefore_eq_false (hpre : Spans 0 pre mid) (hbody : Chain mid (init ++ [l]) b) :
    gapBefore pre (cell heap (init ++ [l]) 0) = false := by
  have hvcn := (hbody.first heap).1
  rcases eq_nil_or_concat' pre with rfl | ⟨pre', p, rfl⟩
  · have hmid : 0 = mid := hpre
    simp only [gapBefore, getLast?_nil, decide_eq_false_iff_not]
    omega
  · have hstop := hpre.getLast_stopVcn getLast?_concat
    unfold RunlistElement.stopVcn at hstop
    have hpos := (hbody.first heap).2.1
    simp only [gapBefore, getLast?_concat, decide_eq_false_iff_not]
    split <;> omega

section

variable (hgrant : heap.Ample) (slack rest : List RunlistElement)
include hgrant

lemma rlInsert_overlay (hspans : Spans 0 (pre ++ e :: post) t.vcn)
    (hbody : Chain a (init ++ [l]) b) (hneg : e.lcn < 0) (ha : e.vcn = a) :
    ∃ runs slack', rlInsert heap (pre ++ e :: (post ++ t :: slack)) (pre.length + (post.length + 2))
        (init ++ l :: rest) (init.length + 1) pre.length = .ok (runs ++ t :: slack') ∧
      Joins (pre ++ (init ++ l :: { e with vcn := b, length := e.stopVcn - b } :: post)) runs ∧
      runs.length + (joinsLeft pre (cell heap (init ++ [l]) 0)).toNat =
        pre.length + (init.length + 1) + (post.length + 1) := by
  obtain ⟨mid, hpre, hvcn, _, hunmapped, hpost⟩ := spans_append_iff.mp hspans
  have hmid : mid = a := by omega
  subst hmid
  have hlcn := (hbody.first heap).2.2
  obtain ⟨p, hlast, hstop⟩ := joinLeft_source_last (hpre.append hbody.spans) hlcn
  obtain ⟨slack', hinsert⟩ := rlInsert_spec hgrant pre (post ++ [t]) slack init rest e l _ p rfl
    (gapBefore_eq_false hpre hbody) hlast (.inl (by simp))
  have hnext : nextVcn (post ++ [t]) = e.stopVcn := by
    rw [hpost.nextVcn_append [] rfl, ← hvcn]
    rfl
  have hafter : afterInsert e p.stopVcn (nextVcn (post ++ [t])) =
      { e with vcn := b, length := e.stopVcn - b } := by
    have hkind : e.lcn = lcnHole ∨ e.lcn = lcnRlNotMapped := by
      unfold lcnRlNotMapped at hunmapped ⊢
      unfold lcnHole
      omega
    rw [afterInsert, if_pos hkind, hnext, hstop]
  rw [hafter] at hinsert
  refine ⟨_, slack', ?_, joinLeft_source_joins pre _ l hlcn, ?_⟩
  · simpa using hinsert
  · have hone := toNat_le (joinsLeft pre (cell heap (init ++ [l]) 0))
    simp only [length_append, length_drop, length_nil, length_cons, joinLeft_length]
    omega

lemma rlAppend_overlay
    (hspans : Spans first (pre ++ { e with length := a - e.vcn } :: (init ++ l :: post)) t.vcn)
    (hbody : Chain a (init ++ [l]) b) (ht : t.lcn < lcnHole) :
    ∃ runs slack', rlAppend heap (pre ++ e :: (post ++ t :: slack)) (pre.length + (post.length + 2))
        (init ++ l :: rest) (init.length + 1) pre.length = .ok (runs ++ t :: slack') ∧
      Joins (pre ++ { e with length := a - e.vcn } :: (init ++ l :: post)) runs := by
  obtain ⟨post', hafter, hright⟩ := joinRight_joins hbody.last_hole_le ht
  set hole : RunlistElement := { e with length := a - e.vcn }
  have hjoins := hright (pre ++ hole :: init)
  have hfits : EndFits (init ++ [joinRight l (post ++ [t])]) (post' ++ [t]) := by
    rw [endFits_concat, ← endFits_concat (pre ++ hole :: init)]
    have hjoined := hjoins.spans (by simpa using hspans)
    rw [append_cons] at hjoined
    exact endFits_of_spans hjoined rfl
  rw [← hafter] at hfits
  obtain ⟨slack', happend⟩ := rlAppend_spec hgrant pre (post ++ [t]) slack init rest e l hfits
  refine ⟨_, slack', ?_, by simpa using hjoins⟩
  rw [hafter, (hbody.first heap).1] at happend
  simpa using happend

lemma rlSplit_overlay (hspans : Spans first (pre ++ e :: post) t.vcn)
    (hbody : Chain a (init ++ [l]) b) :
    ∃ slack', rlSplit heap (pre ++ e :: (post ++ t :: slack)) (pre.length + (post.length + 2))
        (init ++ l :: rest) (init.length + 1) pre.length =
      .ok (pre ++ { e with length := a - e.vcn } :: (init ++ l ::
        ({ e with vcn := b, length := e.stopVcn - b } :: (post ++ t :: slack')))) := by
  obtain ⟨mid, _, hvcn, _, _, hpost⟩ := spans_append_iff.mp hspans
  have hnext : nextVcn (post ++ [t]) = e.stopVcn := by
    rw [hpost.nextVcn_append [] rfl, ← hvcn]
    rfl
  cases post with
  | nil =>
    obtain ⟨slack', hsplit⟩ := rlSplit_spec hgrant pre [] slack init rest e t l
    rw [(hbody.first heap).1, hbody.last_stopVcn] at hsplit
    rw [← hnext]
    exact ⟨slack', hsplit⟩
  | cons g post =>
    obtain ⟨slack', hsplit⟩ := rlSplit_spec hgrant pre (post ++ [t]) slack init rest e g l
    rw [(hbody.first heap).1, hbody.last_stopVcn] at hsplit
    rw [← hnext]
    refine ⟨slack', ?_⟩
    simpa using hsplit

end

end Inside

/-! ## The searches before the merge -/

lemma scan_eq (front ys : List RunlistElement) (hmid : ∀ x ∈ mid, p x = false)
    (he : p e = true) : scan p (front ++ (mid ++ e :: ys)) front.length =
      .ok (front.length + mid.length) := by
  have hfind : (mid ++ e :: ys).findIdx? p = some mid.length := by
    induction mid with
    | nil => simp [findIdx?_cons, he]
    | cons x mid ih =>
      have hx := hmid x mem_cons_self
      have hrest := ih fun y hy => hmid y (mem_cons_of_mem _ hy)
      simp [findIdx?_cons, hx, hrest]
  rw [scan, drop_left, hfind]

lemma lastMapped_eq (heap : RunlistHeap) (front ys : List RunlistElement)
    (hl : lcnHole ≤ l.lcn) (hends : ∀ x ∈ ends, x.lcn < lcnHole) :
    lastMapped heap (front ++ l :: (ends ++ ys)) (front.length + ends.length) = front.length := by
  induction ends using reverseRecOn generalizing ys with
  | nil =>
    have hcell : cell heap (front ++ l :: ([] ++ ys)) front.length = l := by simp
    rw [length_nil]
    cases hlen : front.length with
    | zero => rfl
    | succ k =>
      rw [hlen] at hcell
      rw [lastMapped, hcell, if_neg (not_lt.mpr hl)]
  | append_singleton ends x ih =>
    have hx : x.lcn < lcnHole := hends x (by simp)
    have hcell : cell heap (front ++ l :: (ends ++ x :: ys)) (front.length + ends.length + 1) =
        x := by
      rw [add_assoc, cell_append_right, cell_cons_succ, cell_append_length, cell_cons_zero]
    rw [length_append, length_singleton, ← add_assoc, append_assoc,
      singleton_append, lastMapped, hcell, if_pos hx]
    exact ih (x :: ys) fun y hy => hends y (by simp [hy])

/-- A source runlist: unmapped elements, mapped runs from `a` up to `b`, further
unmapped elements, and the terminator. -/
structure Source (lead init : List RunlistElement) (l : RunlistElement)
    (trail : List RunlistElement) (stop : RunlistElement) (a b : Int) : Prop where
  lead_unmapped : ∀ x ∈ lead, 0 < x.length ∧ x.lcn < lcnHole
  mapped : Chain a (init ++ [l]) b
  trail_unmapped : ∀ x ∈ trail, 0 < x.length ∧ x.lcn < lcnHole
  stop_length : stop.length = 0
  stop_unmapped : stop.lcn < lcnHole

lemma mergePlan_eq (heap : RunlistHeap) (slack sslack : List RunlistElement)
    (hsrc : Source lead init l trail stop a b) (hz : (init ++ l :: trail).getLast? = some z)
    (hpre : ∀ x ∈ pre, 0 < x.length ∧ x.stopVcn ≤ a) (hmid : ∀ x ∈ mid, 0 < x.length)
    (ht : t.length = 0) (he : (mid ++ [t]).head? = some e) (hhere : e.length = 0 ∨ a < e.stopVcn)
    (hfree : e.lcn < 0) :
    mergePlan heap (pre ++ (mid ++ t :: slack))
        (lead ++ (init ++ l :: (trail ++ stop :: sslack))) =
      .ok
        { start := decide (e.lcn < lcnRlNotMapped) || decide (e.vcn = a)
          finish := (decide (lcnRlNotMapped ≤ e.lcn) && decide (e.stopVcn ≤ z.stopVcn)) &&
            !(decide (stop.lcn = lcnEnoent) && decide (z.vcn < e.stopVcn))
          ss := init.length + 1 + (decide (lcnRlNotMapped ≤ e.lcn) &&
            decide (e.stopVcn ≤ z.stopVcn) && decide (e.length = 0)).toNat
          sstart := lead.length
          dins := pre.length
          dend := pre.length + mid.length
          marker := if stop.lcn = lcnEnoent then some stop.vcn else none } := by
  set f := cell heap (init ++ [l]) 0 with hf
  obtain ⟨hvcn, hpos, hlcn⟩ := hsrc.mapped.first heap
  rw [← hf] at hvcn hpos hlcn
  obtain ⟨ys, hsource⟩ : ∃ ys, init ++ l :: (trail ++ stop :: sslack) = f :: ys := by
    cases init <;> exact ⟨_, rfl⟩
  obtain ⟨zs, hdest⟩ : ∃ zs, mid ++ t :: slack = e :: zs := by
    cases mid with
    | nil =>
      cases he
      exact ⟨_, rfl⟩
    | cons x mid =>
      cases he
      exact ⟨_, rfl⟩
  -- The first mapped run of the source.
  have hsi : scan (fun x => decide (x.length = 0) || decide (lcnHole ≤ x.lcn))
      (lead ++ f :: ys) 0 = .ok lead.length := by
    have hskip : ∀ x ∈ lead, (decide (x.length = 0) || decide (lcnHole ≤ x.lcn)) = false := by
      intro x hx
      obtain ⟨hxpos, hxlcn⟩ := hsrc.lead_unmapped x hx
      simp only [or_eq_false_iff, decide_eq_false_iff_not]
      omega
    have hscan := scan_eq [] ys hskip (e := f) (by simp [hlcn])
    simpa using hscan
  -- The element of the destination that contains its first cluster.
  have hdins : scan (fun x => decide (x.length = 0) || decide (f.vcn < x.stopVcn))
      (pre ++ e :: zs) 0 = .ok pre.length := by
    have hskip : ∀ x ∈ pre, (decide (x.length = 0) || decide (f.vcn < x.stopVcn)) = false := by
      intro x hx
      obtain ⟨hxpos, hxstop⟩ := hpre x hx
      simp only [or_eq_false_iff, decide_eq_false_iff_not]
      omega
    have hfound : (decide (e.length = 0) || decide (f.vcn < e.stopVcn)) = true := by
      simp only [or_eq_true, decide_eq_true_eq]
      omega
    have hscan := scan_eq [] zs hskip hfound
    simpa using hscan
  -- The two terminators.
  have hsend : scanEnd (lead ++ f :: ys) lead.length =
      .ok (lead.length + (init ++ l :: trail).length) := by
    have hskip : ∀ x ∈ init ++ l :: trail, decide (x.length = 0) = false := by
      intro x hx
      rw [append_cons] at hx
      have hxpos : 0 < x.length := by
        rcases mem_append.mp hx with hx | hx
        · exact hsrc.mapped.spans.length_pos x hx
        · exact (hsrc.trail_unmapped x hx).1
      simp only [decide_eq_false_iff_not]
      omega
    have hscan := scan_eq lead sslack hskip (e := stop) (by simp [hsrc.stop_length])
    rw [scanEnd, ← hsource]
    simpa using hscan
  have hdend : scanEnd (pre ++ e :: zs) pre.length = .ok (pre.length + mid.length) := by
    have hskip : ∀ x ∈ mid, decide (x.length = 0) = false := by
      intro x hx
      have := hmid x hx
      simp only [decide_eq_false_iff_not]
      omega
    rw [← hdest]
    exact scan_eq pre slack hskip (by simp [ht])
  have hsplit : f :: ys = (init ++ l :: trail) ++ stop :: sslack := by
    rw [← hsource]
    simp
  have hstop : cell heap (lead ++ f :: ys) (lead.length + (init ++ l :: trail).length) = stop := by
    rw [hsplit, cell_append_right, cell_append_length, cell_cons_zero]
  have hlast : cell heap (lead ++ f :: ys) (lead.length + (init ++ l :: trail).length - 1) = z := by
    rcases eq_nil_or_concat' (init ++ l :: trail) with hnil | ⟨front, z', hconcat⟩
    · simp at hnil
    · rw [hconcat, getLast?_concat] at hz
      cases hz
      rw [hsplit, hconcat, length_append, length_singleton, ← add_assoc,
        Nat.add_sub_cancel, cell_append_right, append_assoc, cell_append_length]
      rfl
  have hsfinal : lastMapped heap (lead ++ f :: ys) (lead.length + (init ++ l :: trail).length) =
      lead.length + init.length := by
    have hends : ∀ x ∈ trail ++ [stop], x.lcn < lcnHole := by
      intro x hx
      rcases mem_append.mp hx with hx | hx
      · exact (hsrc.trail_unmapped x hx).2
      · rw [mem_singleton.mp hx]
        exact hsrc.stop_unmapped
    have hmapped := lastMapped_eq heap (lead ++ init) sslack hsrc.mapped.last_hole_le hends
    rw [← hsource]
    simp only [length_append, length_cons, length_nil, append_assoc] at hmapped ⊢
    rw [← hmapped]
    congr 1
    omega
  have hcellE : cell heap (pre ++ e :: zs) pre.length = e := by simp
  have hcellF : cell heap (lead ++ f :: ys) lead.length = f := by simp
  have hss : lead.length + init.length - lead.length + 1 = init.length + 1 := by omega
  have hmarker : (if stop.lcn = lcnEnoent then some stop.vcn else none).isSome =
      decide (stop.lcn = lcnEnoent) := by
    split <;> simp_all
  unfold mergePlan
  rw [hsource, hdest, hsi]
  simp only [bind, Except.bind]
  rw [hcellF, if_neg (by omega)]
  simp only [hdins, pure, Except.pure, hcellE]
  rw [if_neg (by omega)]
  simp only [hsend, hdend, hstop, hlast, hsfinal, hss, hmarker, hvcn]

/-! ## The merge without an end marker -/

lemma Spans.before (hspans : Spans x (pre ++ e :: post) y) :
    ∀ r ∈ pre, 0 < r.length ∧ r.stopVcn ≤ e.vcn := by
  induction pre generalizing x with
  | nil => simp
  | cons p pre ih =>
    obtain ⟨hvcn, hpos, _, hrest⟩ := hspans
    obtain ⟨mid, hpre, hmid, _⟩ := spans_append_iff.mp hrest
    have hle := hpre.le
    intro r hr
    rcases mem_cons.mp hr with rfl | hr
    · unfold RunlistElement.stopVcn
      omega
    · exact ih hrest r hr

lemma runlistsMerge_of_plan (hplan : mergePlan heap drl srl = .ok plan)
    (hmerge : mergeAs heap drl srl plan = .ok merged) (hmarker : plan.marker = none) :
    runlistsMerge heap (some drl) (some srl) = .ok (some merged) := by
  simp only [runlistsMerge, hplan, bind, Except.bind, hmerge, hmarker, pure, Except.pure]

section Merge

/-- Where the driver puts mapped runs that lie inside an element without clusters.
At the front the list becomes shorter only if a single run takes the place of the
element and is joined to the run after it. -/
lemma mergeAs_inside (hgrant : heap.Ample) (hbody : Chain a (init ++ [l]) b)
    (hspans : Spans 0 (pre ++ e :: post) t.vcn) (htlcn : t.lcn < lcnHole) (hneg : e.lcn < 0)
    (ha : e.vcn ≤ a) (hb : b ≤ e.stopVcn) (lead slack rest : List RunlistElement)
    (marker : Option Int) :
    ∃ runs slack', mergeAs heap (pre ++ e :: (post ++ t :: slack)) (lead ++ (init ++ l :: rest))
        { start := decide (e.vcn = a), finish := decide (e.stopVcn = b), ss := init.length + 1,
          sstart := lead.length, dins := pre.length, dend := pre.length + (post.length + 1),
          marker := marker } = .ok (runs ++ t :: slack') ∧
      Joins (overlay pre e post (init ++ [l]) a b) runs ∧
      (pre = [] → e.vcn = a → (e.stopVcn = b → init = [] → joinsRight l (post ++ [t]) = false) →
        post.length + 1 ≤ runs.length) := by
  have hover := overlay_spans hspans hbody ha hb
  unfold mergeAs
  rw [drop_left]
  by_cases hstart : e.vcn = a
  · by_cases hfinish : e.stopVcn = b
    · have hlist : overlay pre e post (init ++ [l]) a b = pre ++ (init ++ l :: post) := by
        simp [overlay, RunlistElement.cut, hstart, hfinish]
      rw [hlist] at hover ⊢
      simp only [hstart, hfinish]
      obtain ⟨runs, slack', hreplace, hjoins, hlength⟩ := rlReplace_overlay hgrant hover
        hbody htlcn (e := e)
      refine ⟨runs, slack', hreplace, hjoins, fun hpre _ hapart => ?_⟩
      subst hpre
      have hleft : joinsLeft [] (cell heap (init ++ [l]) 0) = false := rfl
      rw [hleft, toNat_false] at hlength
      have hone := toNat_le (joinsRight l (post ++ [t]))
      cases init with
      | nil =>
        rw [hapart trivial rfl, toNat_false] at hlength
        omega
      | cons f init =>
        rw [length_cons] at hlength
        omega
    · have hlist : overlay pre e post (init ++ [l]) a b =
          pre ++ (init ++ l :: { e with vcn := b, length := e.stopVcn - b } :: post) := by
        simp [overlay, RunlistElement.cut, hstart, lt_of_le_of_ne hb (Ne.symm hfinish)]
      rw [hlist]
      simp only [hstart, hfinish]
      obtain ⟨runs, slack', hinsert, hjoins, hlength⟩ := rlInsert_overlay hgrant slack rest hspans
        hbody hneg hstart
      refine ⟨runs, slack', hinsert, hjoins, fun hpre _ _ => ?_⟩
      have hone := toNat_le (joinsLeft pre (cell heap (init ++ [l]) 0))
      omega
  · have hlt := lt_of_le_of_ne ha hstart
    by_cases hfinish : e.stopVcn = b
    · have hlist : overlay pre e post (init ++ [l]) a b =
          pre ++ { e with length := a - e.vcn } :: (init ++ l :: post) := by
        simp [overlay, RunlistElement.cut, hlt, hfinish]
      rw [hlist] at hover ⊢
      simp only [hstart, hfinish]
      obtain ⟨runs, slack', happend, hjoins⟩ := rlAppend_overlay hgrant slack rest hover hbody htlcn
      exact ⟨runs, slack', happend, hjoins, fun _ heq => heq.elim⟩
    · have hlist : overlay pre e post (init ++ [l]) a b = pre ++ { e with length := a - e.vcn } ::
          (init ++ l :: { e with vcn := b, length := e.stopVcn - b } :: post) := by
        simp [overlay, RunlistElement.cut, hlt, lt_of_le_of_ne hb (Ne.symm hfinish)]
      rw [hlist]
      simp only [hstart, hfinish]
      obtain ⟨slack', hsplit⟩ := rlSplit_overlay hgrant slack rest hspans hbody
      exact ⟨_, slack', hsplit.trans (by simp), .refl _, fun _ heq => heq.elim⟩

/-- A source without an end marker, inside a hole or an unmapped run. -/
lemma runlistsMerge_inside (hgrant : heap.Ample)
    (slack sslack : List RunlistElement) (hsrc : Source lead init l [] stop a b)
    (hstop : stop.lcn = lcnRlNotMapped)
    (hspans : Spans 0 (pre ++ e :: post) t.vcn) (ht : t.length = 0) (htlcn : t.lcn < lcnHole)
    (hneg : e.lcn < 0) (ha : e.vcn ≤ a) (hb : b ≤ e.stopVcn) :
    ∃ runs slack', runlistsMerge heap (some (pre ++ e :: (post ++ t :: slack)))
        (some (lead ++ (init ++ l :: stop :: sslack))) = .ok (some (runs ++ t :: slack')) ∧
      Joins (overlay pre e post (init ++ [l]) a b) runs := by
  have hbody := hsrc.mapped
  have hlt : a < b := hbody.spans.lt_of_ne_nil (by simp)
  obtain ⟨_, _, _, hpos, hlcn, hpost⟩ := spans_append_iff.mp hspans
  have hbefore : ∀ x ∈ pre, 0 < x.length ∧ x.stopVcn ≤ a := by
    intro x hx
    obtain ⟨hxpos, hxstop⟩ := hspans.before x hx
    exact ⟨hxpos, hxstop.trans ha⟩
  have hmid : ∀ x ∈ e :: post, 0 < x.length := by
    intro x hx
    exact hspans.length_pos x (mem_append_right _ hx)
  have hplan := mergePlan_eq heap slack sslack hsrc getLast?_concat hbefore hmid ht rfl
    (.inr (by omega)) hneg
  have hkind : decide (e.lcn < lcnRlNotMapped) = false := by simpa using hlcn
  have hkind' : decide (lcnRlNotMapped ≤ e.lcn) = true := by simpa using hlcn
  have hlong : decide (e.length = 0) = false := by simp; omega
  have hfinish : decide (e.stopVcn ≤ l.stopVcn) = decide (e.stopVcn = b) := by
    rw [hbody.last_stopVcn, decide_eq_decide]
    omega
  have hnone : stop.lcn ≠ lcnEnoent := by
    rw [hstop]
    decide
  simp only [hkind, hkind', hlong, hfinish, hnone, decide_false, Bool.false_and, Bool.not_false,
    Bool.and_true, Bool.and_false] at hplan
  obtain ⟨runs, slack', hmerge, hjoins, _⟩ := mergeAs_inside hgrant hbody hspans htlcn hneg ha hb
    lead slack (stop :: sslack) none
  exact ⟨runs, slack', runlistsMerge_of_plan hplan hmerge rfl, hjoins⟩

lemma lcnRlNotMapped_neg : lcnRlNotMapped < 0 := by decide

def unmappedGap (x y : Int) : List RunlistElement :=
  RunlistElement.cut { vcn := x, lcn := lcnRlNotMapped, length := 0 } x y

lemma unmappedGap_of_le (hyx : y ≤ x) : unmappedGap x y = [] :=
  if_neg (not_lt.mpr hyx)

lemma unmappedGap_self : unmappedGap x x = [] := unmappedGap_of_le le_rfl

lemma unmappedGap_of_lt (hxy : x < y) :
    unmappedGap x y = [{ vcn := x, lcn := lcnRlNotMapped, length := y - x }] := if_pos hxy

/-- A source that starts after the end is neither adjacent nor joined. -/
lemma gapBefore_eq_true (hpre : Spans 0 pre x) (hbody : Chain a (init ++ [l]) b) (hxa : x < a) :
    gapBefore pre (cell heap (init ++ [l]) 0) = true ∧
      joinsLeft pre (cell heap (init ++ [l]) 0) = false ∧
      x = (pre.getLast?.map RunlistElement.stopVcn).getD 0 := by
  have hvcn := (hbody.first heap).1
  have hlcn := (hbody.first heap).2.2
  rcases eq_nil_or_concat' pre with rfl | ⟨pre', p, rfl⟩
  · have hx : 0 = x := hpre
    refine ⟨?_, rfl, hx.symm⟩
    simp only [gapBefore, getLast?_nil, decide_eq_true_eq]
    omega
  · have hstop := hpre.getLast_stopVcn getLast?_concat
    have hnot : rlAreMergeable p (cell heap (init ++ [l]) 0) = false := by
      by_contra hmerge
      have hadj := adjacent_of_mergeable (by simpa using hmerge) (.inr hlcn)
      have := hadj.1
      omega
    refine ⟨?_, by simpa [joinsLeft] using hnot, by simp [hstop]⟩
    unfold RunlistElement.stopVcn at hstop
    simp only [gapBefore, getLast?_concat, hnot, decide_eq_true_eq, false_eq_true, if_false]
    omega

section

variable (hgrant : heap.Ample)
include hgrant

/-- Inserting before the end of the attribute moves the end. -/
lemma rlInsert_after (hbody : Chain a (init ++ [l]) b) (hspans : Spans 0 pre t.vcn)
    (ht : t.length = 0) (hend : t.lcn = lcnEnoent) (ha : t.vcn ≤ a) :
    ∃ runs slack', rlInsert heap (pre ++ t :: slack) (pre.length + 1) (init ++ l :: rest)
        (init.length + 1) pre.length =
          .ok (runs ++ { vcn := b, lcn := t.lcn, length := 0 } :: slack') ∧
      Joins (pre ++ (unmappedGap t.vcn a ++ (init ++ [l]))) runs := by
  have hlcn := (hbody.first heap).2.2
  have hmoved : ({ t with vcn := b } : RunlistElement) =
    { vcn := b, lcn := t.lcn, length := 0 } := by
    rw [← ht]
  rcases eq_or_lt_of_le ha with heq | hlt
  · rw [← heq] at hbody
    obtain ⟨p, hlast, hstop⟩ := joinLeft_source_last (hspans.append hbody.spans) hlcn
    obtain ⟨slack', hinsert⟩ := rlInsert_spec hgrant pre [] slack init rest t l _ p rfl
      (gapBefore_eq_false hspans hbody) hlast (.inr hend)
    have hafter : afterInsert t p.stopVcn (nextVcn []) =
      { vcn := b, lcn := t.lcn, length := 0 } := by
      rw [afterInsert, hend, if_neg (by decide), hstop, ← hend, hmoved]
    have hjoins := joinLeft_source_joins pre [] l hlcn
    rw [hafter] at hinsert
    rw [← heq, unmappedGap_self]
    exact ⟨_, slack', hinsert.trans (by simp), hjoins⟩
  · obtain ⟨hgap, hleft, hstop⟩ := gapBefore_eq_true hspans hbody hlt
    obtain ⟨slack', hinsert⟩ := rlInsert_gap_spec hgrant t l _ rfl hgap hleft
      hend hstop
    rw [(hbody.first heap).1, hbody.last_stopVcn, hmoved] at hinsert
    rw [unmappedGap_of_lt hlt]
    exact ⟨_, slack', hinsert.trans (by simp), .refl _⟩

/-- At the end of what is mapped so far the terminator of the source is taken over. -/
lemma mergeAs_unmappedEnd (hbody : Chain a (init ++ [l]) b) (hend : t.lcn = lcnRlNotMapped)
    (ha : t.vcn ≤ a) (marker : Option Int) :
    ∃ runs slack', mergeAs heap (pre ++ t :: slack) (lead ++ (init ++ l :: stop :: sslack))
        { start := decide (t.vcn = a), finish := true, ss := init.length + 1 + 1,
          sstart := lead.length, dins := pre.length, dend := pre.length, marker := marker } =
          .ok (runs ++ stop :: slack') ∧
      Joins (pre ++ (unmappedGap t.vcn a ++ (init ++ [l]))) runs := by
  have hlcn := (hbody.first heap).2.2
  have hfirst : cell heap (init ++ [l] ++ [stop]) 0 = cell heap (init ++ [l]) 0 := by
    rw [append_assoc]
    exact cell_first init [stop] l
  have hfits : ∀ front, EndFits front [] := fun front x _ h hh => by cases hh
  have hlength : (init ++ [l]).length = init.length + 1 := by simp
  unfold mergeAs
  rw [drop_left, append_cons init l]
  rcases eq_or_lt_of_le ha with heq | hlt
  · obtain ⟨slack', hreplace⟩ := rlReplace_spec hgrant pre [] slack (init ++ [l]) sslack t stop _
      hfirst (hfits _)
    have hjoins := joinLeft_source_joins pre [] l hlcn
    rw [← heq, unmappedGap_self]
    simp only [decide_true]
    rw [hlength] at hreplace
    refine ⟨_, slack', hreplace.trans ?_, hjoins⟩
    have hdrop := drop_joinsLeft pre (cell heap (init ++ [l]) 0) init [stop] l
    simp only [joinRight, afterJoin, append_assoc, singleton_append, hdrop, drop_nil, nil_append]
  · obtain ⟨slack', happend⟩ := rlAppend_spec hgrant pre [] slack (init ++
      [l]) sslack t stop (hfits _)
    have hne : decide (t.vcn = a) = false := by simp; omega
    have hgap : ({ t with length := (cell heap (init ++ [l] ++ [stop]) 0).vcn - t.vcn } :
        RunlistElement) = { vcn := t.vcn, lcn := lcnRlNotMapped, length := a - t.vcn } := by
      rw [hfirst, (hbody.first heap).1, hend]
    rw [hgap, hlength] at happend
    rw [unmappedGap_of_lt hlt]
    simp only [hne]
    exact ⟨_, slack', happend.trans (by simp [joinRight, afterJoin]), .refl _⟩

/-- A source without an end marker, at or after the end of the destination. -/
lemma runlistsMerge_after (slack sslack : List RunlistElement)
    (hsrc : Source lead init l [] stop a b) (hstop : stop.lcn = lcnRlNotMapped)
    (hend : stop.vcn = b) (hspans : Spans 0 pre t.vcn) (ht : t.length = 0)
    (htlcn : t.lcn = lcnEnoent ∨ t.lcn = lcnRlNotMapped) (ha : t.vcn ≤ a) :
    ∃ runs slack', runlistsMerge heap (some (pre ++ t :: slack))
        (some (lead ++ (init ++ l :: stop :: sslack))) =
          .ok (some (runs ++ { vcn := b, lcn := t.lcn, length := 0 } :: slack')) ∧
      Joins (pre ++ (unmappedGap t.vcn a ++ (init ++ [l]))) runs := by
  have hbody := hsrc.mapped
  have hlt : a < b := hbody.spans.lt_of_ne_nil (by simp)
  have htstop : t.stopVcn = t.vcn := by
    unfold RunlistElement.stopVcn
    omega
  have hbefore : ∀ x ∈ pre, 0 < x.length ∧ x.stopVcn ≤ a := by
    intro x hx
    exact ⟨hspans.length_pos x hx, (hspans.stop_le x hx).trans ha⟩
  have hneg : t.lcn < 0 := by
    rcases htlcn with h | h <;> rw [h] <;> decide
  have hplan := mergePlan_eq heap slack sslack hsrc getLast?_concat hbefore
    (fun x hx => absurd hx not_mem_nil) ht rfl (.inl ht) hneg
  have hnone : stop.lcn ≠ lcnEnoent := by
    rw [hstop]
    decide
  have hshort : decide (t.stopVcn ≤ l.stopVcn) = true := by
    rw [hbody.last_stopVcn]
    simp
    omega
  simp only [hshort, ht, hnone] at hplan
  rcases htlcn with hE | hN
  · have hkind : decide (t.lcn < lcnRlNotMapped) = true := by rw [hE]; decide
    have hkind' : decide (lcnRlNotMapped ≤ t.lcn) = false := by rw [hE]; decide
    obtain ⟨runs, slack', hinsert, hjoins⟩ := rlInsert_after hgrant hbody
      hspans ht hE ha
    have hmerge : mergeAs heap (pre ++ t :: slack) (lead ++ (init ++ l :: stop :: sslack))
        { start := true, finish := false, ss := init.length + 1, sstart := lead.length,
          dins := pre.length, dend := pre.length, marker := none } =
          .ok (runs ++ { vcn := b, lcn := t.lcn, length := 0 } :: slack') := by
      unfold mergeAs
      rw [drop_left]
      exact hinsert
    simp only [hkind, hkind'] at hplan
    exact ⟨runs, slack', runlistsMerge_of_plan hplan hmerge rfl, hjoins⟩
  · have hkind : decide (t.lcn < lcnRlNotMapped) = false := by rw [hN]; decide
    have hkind' : decide (lcnRlNotMapped ≤ t.lcn) = true := by rw [hN]; decide
    have hstopEq : stop = { vcn := b, lcn := t.lcn, length := 0 } := by
      rw [hN, ← hstop, ← hend, ← hsrc.stop_length]
    obtain ⟨runs, slack', hmerge, hjoins⟩ := mergeAs_unmappedEnd hgrant hbody hN ha none
    simp only [hkind, hkind'] at hplan
    rw [← hstopEq]
    exact ⟨runs, slack', runlistsMerge_of_plan hplan hmerge rfl, hjoins⟩

end

end Merge

end NtfsDxe
