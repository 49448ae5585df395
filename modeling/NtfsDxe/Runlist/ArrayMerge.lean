import NtfsDxe.Runlist.Overlay

/-! # The four array operations

Each operation of the merge moves the tail of the destination and copies the
source in front of it. What the array contains afterwards is the overlay of the
source, with its ends joined to the neighbours where the driver joins them.
-/

namespace NtfsDxe

open Foundation List

/-! ## Cells -/

@[simp] lemma cell_append_right (i : Nat) :
    cell heap (xs ++ ys) (xs.length + i) = cell heap ys i := by
  simp only [cell, getD_eq_getElem?_getD,
    getElem?_append_right (Nat.le_add_right xs.length i), Nat.add_sub_cancel_left]

@[simp] lemma cell_append_length : cell heap (xs ++ ys) xs.length = cell heap ys 0 := by
  simpa using cell_append_right 0

@[simp] lemma cell_cons_zero : cell heap (e :: ys) 0 = e := rfl

@[simp] lemma cell_cons_succ : cell heap (e :: ys) (i + 1) = cell heap ys i := rfl

lemma cell_first (init ys : List RunlistElement) (l : RunlistElement) :
    cell heap (init ++ l :: ys) 0 = cell heap (init ++ [l]) 0 := by
  cases init <;> rfl

/-- Every allocation succeeds. -/
def RunlistHeap.Ample (heap : RunlistHeap) : Prop := ∀ n, heap.grants n = true

lemma rlRealloc_eq (hgrant : heap.Ample) :
    rlRealloc heap rl oldSize newSize = .ok (rl ++ replicate (newSize - rl.length) heap.fresh) := by
  rw [rlRealloc, if_pos (.inr (hgrant _))]

lemma rlMm_eq_splice (dst src : Nat) :
    rlMm base dst src size = splice base dst ((base.drop src).take size) := by
  unfold rlMm
  split
  · rfl
  next hsame =>
    rcases Nat.eq_zero_or_pos size with rfl | hpos
    · simp
    · have hdst : dst = src := not_not.mp fun hne => hsame ⟨hne, hpos⟩
      rw [hdst, splice_self]

lemma rlMc_eq_splice :
    rlMc base dst src start size = splice base dst ((src.drop start).take size) := by
  unfold rlMc
  split
  · rfl
  next hzero =>
    obtain rfl : size = 0 := by omega
    simp

/-- Moving the tail and copying the source in front of it. -/
lemma rlMc_rlMm (front rest before moved after skipped body unused : List RunlistElement)
    (hfront : cells = front ++ rest)
    (hmoved : cells = before ++ (moved ++ after)) (hsrc : src = skipped ++ (body ++ unused))
    (hd : d = front.length) (hm : m = d + body.length) (hs : s = before.length)
    (hn : n = moved.length) (hk : k = skipped.length) (hsize : size = body.length)
    (hroom : m ≤ cells.length) :
    rlMc (rlMm cells m s n) d src k size =
      front ++ (body ++ (moved ++ cells.drop (m + moved.length))) := by
  have htake : cells.take d = front := by rw [hfront, hd, take_left]
  have hcopy : (src.drop k).take size = body := by
    rw [hsrc, hk, drop_left, hsize, take_left]
  have hmove : (cells.drop s).take n = moved := by
    rw [hmoved, hs, drop_left, hn, take_left]
  rw [rlMm_eq_splice, rlMc_eq_splice, hmove, hcopy, splice_splice_before hm.symm hroom, htake]
  simp only [append_assoc]

/-! ## Dividing a hole -/

/-- `src` divides the element at `loc` in two. -/
lemma rlSplit_spec (hgrant : heap.Ample)
    (pre tail slack init rest : List RunlistElement) (e g l : RunlistElement) :
    ∃ slack', rlSplit heap (pre ++ e :: (g :: tail ++ slack)) (pre.length + (tail.length + 2))
        (init ++ l :: rest) (init.length + 1) pre.length =
      .ok (pre ++ { e with length := (cell heap (init ++ [l]) 0).vcn - e.vcn } ::
        (init ++ l :: ({ e with vcn := l.stopVcn, length := g.vcn - l.stopVcn } ::
          (g :: tail ++ slack')))) := by
  unfold rlSplit
  rw [rlRealloc_eq hgrant]
  simp only [bind, Except.bind, pure, Except.pure]
  generalize hfresh : replicate _ heap.fresh = fresh
  replace hfresh := congrArg length hfresh
  rw [rlMc_rlMm (pre ++ [e]) (g :: tail ++ slack ++ fresh) pre (e :: g :: tail) (slack ++ fresh)
    [] (init ++ [l]) rest]
  · generalize drop _ _ = slack'
    exact ⟨slack', by simp [add_assoc, cell_first init]⟩
  all_goals simp at hfresh ⊢
  omega

/-! ## Joining the right end -/

/-- Whether the driver joins the last run of the source to the destination after it. -/
def joinsRight (l : RunlistElement) : List RunlistElement → Bool
  | [] => false
  | g :: _ => rlAreMergeable l g

/-- The last run of the source after the driver has joined it. -/
def joinRight (l : RunlistElement) : List RunlistElement → RunlistElement
  | [] => l
  | g :: _ => if rlAreMergeable l g then l.merge g else l

/-- The destination after the source, without a joined run. -/
def afterJoin (l : RunlistElement) (tail : List RunlistElement) : List RunlistElement :=
  tail.drop (joinsRight l tail).toNat

variable (pre init ys : List RunlistElement) (l : RunlistElement) (tail : List RunlistElement)
  (f : RunlistElement)

lemma joinsRight_le : (joinsRight l tail).toNat ≤ tail.length := by
  cases tail with
  | nil => simp [joinsRight]
  | cons g tail =>
    have := Bool.toNat_le (rlAreMergeable l g)
    simp only [joinsRight, length_cons]
    omega

/-- The change of the source that joins its right end. -/
lemma modify_joinRight (rest : List RunlistElement) (l : RunlistElement)
    (tail : List RunlistElement) (hnext : ∀ g tail', tail = g :: tail' → cell heap dst i = g) :
    (if joinsRight l tail = true then
      (init ++ l :: rest).modify (init.length + 1 - 1) fun r => r.merge (cell heap dst i)
    else init ++ l :: rest) = init ++ joinRight l tail :: rest := by
  cases tail with
  | nil => rfl
  | cons g tail =>
    rw [hnext g tail rfl]
    simp only [joinsRight, joinRight]
    split
    next hjoin => simp [hjoin]
    next hjoin => simp [hjoin]

@[simp] lemma joinRight_lcn : (joinRight l tail).lcn = l.lcn := by
  cases tail with
  | nil => rfl
  | cons g tail =>
    simp only [joinRight]
    split <;> rfl

@[simp] lemma joinRight_vcn : (joinRight l tail).vcn = l.vcn := by
  cases tail with
  | nil => rfl
  | cons g tail =>
    simp only [joinRight]
    split <;> rfl

@[simp] lemma afterJoin_length :
    (afterJoin l tail).length = tail.length - (joinsRight l tail).toNat := length_drop

/-- The test of the driver for the right end. -/
lemma joinsRight_eq :
    (decide (pre.length + 1 < pre.length + (tail.length + 1)) &&
      rlAreMergeable (cell heap (init ++ l :: rest) (init.length + 1 - 1))
        (cell heap (pre ++ e :: (tail ++ slack)) (pre.length + 1))) = joinsRight l tail := by
  cases tail <;> simp [joinsRight]

@[simp] lemma take_append_afterJoin :
    tail.take (joinsRight l tail).toNat ++ (afterJoin l tail ++ ys) = tail ++ ys := by
  rw [← append_assoc, afterJoin, take_append_drop]

lemma firstVcn_joinRight :
    (cell heap (init ++ joinRight l tail :: ys) 0).vcn = (cell heap (init ++ [l]) 0).vcn := by
  cases init <;> simp

lemma firstLcn_joinRight :
    (cell heap (init ++ joinRight l tail :: ys) 0).lcn = (cell heap (init ++ [l]) 0).lcn := by
  cases init <;> simp

/-- A terminator at the end of the attribute already stands where `fixEndMarker`
puts it. -/
def EndFits (front tail : List RunlistElement) : Prop :=
  ∀ l ∈ front.getLast?, ∀ h ∈ tail.head?, h.lcn = lcnEnoent → h.vcn = l.stopVcn

lemma endFits_concat :
    EndFits (init ++ [l]) tail ↔ ∀ h ∈ tail.head?, h.lcn = lcnEnoent → h.vcn = l.stopVcn := by
  simp [EndFits]

lemma fixEndMarker_spec {tail : List RunlistElement} (hi : i = front.length) (hne : front ≠ [])
    (hfits : EndFits front tail) :
    ∃ slack', fixEndMarker heap (front ++ (tail ++ slack)) i = front ++ (tail ++ slack') := by
  rcases eq_nil_or_concat' front with rfl | ⟨init, l, rfl⟩
  · exact absurd rfl hne
  rw [hi]
  unfold fixEndMarker
  split
  next hend =>
    cases tail with
    | nil => exact ⟨_, by rw [modify_append_length]; rfl⟩
    | cons h tail =>
      rw [endFits_concat] at hfits
      have hstop : h.vcn = l.stopVcn := hfits h rfl (by simpa using hend)
      exact ⟨slack, by simp [← hstop]⟩
  next => exact ⟨slack, rfl⟩

/-- `src` ends the element at `loc`. -/
lemma rlAppend_spec (hgrant : heap.Ample)
    (pre tail slack init rest : List RunlistElement) (e l : RunlistElement)
    (hfits : EndFits (init ++ [joinRight l tail]) (afterJoin l tail)) :
    ∃ slack', rlAppend heap (pre ++ e :: (tail ++ slack)) (pre.length + (tail.length + 1))
        (init ++ l :: rest) (init.length + 1) pre.length =
      .ok (pre ++ { e with length := (cell heap (init ++ [l]) 0).vcn - e.vcn } ::
        (init ++ joinRight l tail :: (afterJoin l tail ++ slack'))) := by
  unfold rlAppend
  rw [joinsRight_eq]
  dsimp only
  rw [rlRealloc_eq hgrant]
  simp only [bind, Except.bind, pure, Except.pure]
  generalize hfresh : replicate _ heap.fresh = fresh
  replace hfresh := congrArg length hfresh
  rw [modify_joinRight init rest l tail (by intro g tail' htail; simp [htail])]
  have hjoined := joinsRight_le l tail
  rw [rlMc_rlMm (pre ++ [e]) (tail ++ slack ++ fresh)
    (pre ++ e :: tail.take (joinsRight l tail).toNat) (afterJoin l tail) (slack ++ fresh) []
    (init ++ [joinRight l tail]) rest]
  · generalize drop _ (_ ++ fresh) = slack'
    have hlist : pre ++ [e] ++ (init ++ [joinRight l tail] ++ (afterJoin l tail ++ slack')) =
        pre ++ e :: (init ++ joinRight l tail :: (afterJoin l tail ++ slack')) := by simp
    rw [hlist]
    simp only [modify_append_length, modify_zero_cons, cell_append_right, cell_cons_succ,
      firstVcn_joinRight]
    set hole : RunlistElement := { e with length := (cell heap (init ++ [l]) 0).vcn - e.vcn }
    have hfront : ∀ ys, pre ++ hole :: (init ++ joinRight l tail :: ys) =
        (pre ++ hole :: init ++ [joinRight l tail]) ++ ys := by simp
    have hlength : pre.length + (init.length + 1) + 1 =
        (pre ++ hole :: init ++ [joinRight l tail]).length := by simp [add_assoc]
    have hfits' : EndFits (pre ++ hole :: init ++ [joinRight l tail]) (afterJoin l tail) := by
      rwa [endFits_concat] at hfits ⊢
    simp only [hfront]
    obtain ⟨slack'', hfix⟩ := fixEndMarker_spec hlength (by simp) hfits'
    exact ⟨slack'', by rw [hfix]⟩
  all_goals simp at hfresh ⊢
  all_goals omega

/-! ## Joining the left end -/

section

variable (pre : List RunlistElement) (f : RunlistElement)

/-- Whether the driver joins the first run of the source to the destination before it. -/
def joinsLeft : Bool :=
  match pre.getLast? with
  | none => false
  | some p => rlAreMergeable p f

/-- The destination before the source, with the first run of the source joined
to its last run. -/
def joinLeft : List RunlistElement :=
  if joinsLeft pre f then pre.modify (pre.length - 1) fun p => p.merge f else pre

@[simp] lemma joinLeft_length : (joinLeft pre f).length = pre.length := by
  unfold joinLeft
  split <;> simp

lemma joinsLeft_le : (joinsLeft pre f).toNat ≤ pre.length := by
  rcases eq_nil_or_concat' pre with rfl | ⟨pre', p, rfl⟩
  · simp [joinsLeft]
  · have := Bool.toNat_le (joinsLeft (pre' ++ [p]) f)
    rw [length_append, length_singleton]
    omega

/-- The change of the destination that joins the left end of the source. -/
lemma modify_joinLeft :
    (if joinsLeft pre f = true then (pre ++ ys).modify (pre.length - 1) fun p => p.merge f
    else pre ++ ys) = joinLeft pre f ++ ys := by
  unfold joinLeft
  split
  next hjoin =>
    rcases eq_nil_or_concat' pre with rfl | ⟨pre', p, rfl⟩
    · simp [joinsLeft] at hjoin
    · simp
  next => rfl

lemma joinsLeft_eq (heap : RunlistHeap) (pre ys : List RunlistElement) (f : RunlistElement) :
    (decide (0 < pre.length) && rlAreMergeable (cell heap (pre ++ ys) (pre.length - 1)) f) =
      joinsLeft pre f := by
  rcases eq_nil_or_concat' pre with rfl | ⟨pre', p, rfl⟩
  · rfl
  · simp [joinsLeft]

lemma joinsLeft_eq_ne :
    (decide (pre.length ≠ 0) && rlAreMergeable (cell heap (pre ++ ys) (pre.length - 1)) f) =
      joinsLeft pre f := by
  rw [← joinsLeft_eq heap pre ys f]
  simp only [Nat.pos_iff_ne_zero]

lemma joinsLeft_congr (hvcn : f'.vcn = f.vcn) (hlcn : f'.lcn = f.lcn) :
    joinsLeft pre f' = joinsLeft pre f := by
  unfold joinsLeft
  split
  · rfl
  · simp only [rlAreMergeable, hvcn, hlcn]

lemma rlReplaceGrow_spec (hgrant : heap.Ample) :
    ∃ fresh, rlReplaceGrow heap dst dsize ssize left right = .ok (dst ++ fresh) ∧
      (dsize ≤ dst.length → dsize + ssize ≤ (dst ++
        fresh).length + (1 + left.toNat + right.toNat)) := by
  unfold rlReplaceGrow
  split
  · refine ⟨_, rlRealloc_eq hgrant, ?_⟩
    simp only [length_append, length_replicate]
    omega
  · refine ⟨[], by rw [append_nil], ?_⟩
    simp only [append_nil]
    omega

/-- `src` takes the place of the element at `loc`. -/
lemma rlReplace_spec (hgrant : heap.Ample)
    (pre tail slack init rest : List RunlistElement) (e l f : RunlistElement)
    (hf : cell heap (init ++ [joinRight l tail]) 0 = f)
    (hfits : EndFits (joinLeft pre f ++ (init ++ [joinRight l tail]).drop (joinsLeft pre f).toNat)
      (afterJoin l tail)) :
    ∃ slack', rlReplace heap (pre ++ e :: (tail ++ slack)) (pre.length + (tail.length + 1))
        (init ++ l :: rest) (init.length + 1) pre.length =
      .ok (joinLeft pre f ++ ((init ++ [joinRight l tail]).drop (joinsLeft pre f).toNat ++
        (afterJoin l tail ++ slack'))) := by
  unfold rlReplace
  have hleft : (decide (0 < pre.length) &&
      rlAreMergeable (cell heap (pre ++ e :: (tail ++ slack)) (pre.length - 1))
        (cell heap (init ++ l :: rest) 0)) = joinsLeft pre f := by
    rw [joinsLeft_eq]
    apply joinsLeft_congr
    · rw [← hf, firstVcn_joinRight, cell_first]
    · rw [← hf, firstLcn_joinRight, cell_first]
  rw [joinsRight_eq, hleft]
  dsimp only
  obtain ⟨fresh, hgrow, hroom⟩ := rlReplaceGrow_spec hgrant
  rw [hgrow]
  simp only [bind, Except.bind, pure, Except.pure]
  rw [modify_joinRight init rest l tail (by intro g tail' htail; simp [htail]), cell_first, hf,
    append_assoc, modify_joinLeft]
  have hjoined := joinsRight_le l tail
  have hjoinedLeft := joinsLeft_le pre f
  set body := (init ++ [joinRight l tail]).drop (joinsLeft pre f).toNat with hbody
  have hbodyLen : body.length = init.length + 1 - (joinsLeft pre f).toNat := by simp [hbody]
  have hone := Bool.toNat_le (joinsLeft pre f)
  simp only [length_append, length_cons] at hroom
  have hlength : pre.length + (init.length + 1) - (joinsLeft pre f).toNat =
      (joinLeft pre f ++ body).length := by
    rw [length_append, joinLeft_length]
    omega
  rw [rlMc_rlMm (joinLeft pre f) (e :: (tail ++ slack) ++ fresh)
    (joinLeft pre f ++ e :: tail.take (joinsRight l tail).toNat) (afterJoin l tail)
    (slack ++ fresh) ((init ++ [joinRight l tail]).take (joinsLeft pre f).toNat) body rest rfl]
  · generalize drop _ (joinLeft pre f ++ _) = slack'
    split
    next htail =>
      have hne : joinLeft pre f ++ body ≠ [] := ne_nil_of_length_pos (by omega)
      obtain ⟨slack'', hfix⟩ := fixEndMarker_spec hlength hne hfits
      exact ⟨slack'', by rw [← append_assoc, hfix, append_assoc]⟩
    next => exact ⟨slack', rfl⟩
  · simp
  · rw [← append_assoc, take_append_drop]
    simp
  any_goals simp
  all_goals omega

/-! ## Inserting before an element -/

/-- Whether the driver finds a gap between the destination and the source. -/
def gapBefore : Bool :=
  match pre.getLast? with
  | none => decide (0 < f.vcn)
  | some p => decide (p.vcn + (p.length + if rlAreMergeable p f then f.length else 0) < f.vcn)

end

lemma gapBefore_eq :
    (if pre.length = 0 then decide (0 < f.vcn)
    else decide ((cell heap (pre ++ ys) (pre.length - 1)).vcn +
      ((cell heap (pre ++ ys) (pre.length - 1)).length + if joinsLeft pre f then f.length else 0) <
        f.vcn)) = gapBefore pre f := by
  rcases eq_nil_or_concat' pre with rfl | ⟨pre', p, rfl⟩
  · rfl
  · simp [gapBefore, joinsLeft]

/-- The element after an insertion that ends at `stop`. -/
def afterInsert (e : RunlistElement) (stop next : Int) : RunlistElement :=
  if e.lcn = lcnHole ∨ e.lcn = lcnRlNotMapped then
    { e with vcn := stop, length := next - stop }
  else { e with vcn := stop }

lemma adjustAfter_spec (heap : RunlistHeap) (tail slack : List RunlistElement)
    {e l : RunlistElement} (hi : i = front.length) (hlast : front.getLast? = some l)
    (htail : tail ≠ [] ∨ e.lcn = lcnEnoent) :
    adjustAfter heap (front ++ e :: (tail ++ slack)) i =
      front ++ afterInsert e l.stopVcn (nextVcn tail) :: (tail ++ slack) := by
  rcases eq_nil_or_concat' front with rfl | ⟨init, l', rfl⟩
  · cases hlast
  rw [getLast?_concat] at hlast
  cases hlast
  have hprev : cell heap (init ++ [l] ++ e :: (tail ++ slack)) (i - 1) = l := by
    rw [hi]
    simp
  unfold adjustAfter afterInsert
  rw [hprev, hi]
  simp only [modify_append_length, modify_zero_cons, cell_append_length, cell_cons_zero]
  split
  next hlcn =>
    cases tail with
    | nil =>
      rcases htail with hne | hend
      · exact absurd rfl hne
      · rw [hend] at hlcn
        exact absurd hlcn (by decide)
    | cons g tail =>
      rw [cell_append_right, cell_cons_succ, cons_append, cell_cons_zero, nextVcn_cons]
  next => rfl

/-- `src` starts where the destination before `loc` ends. -/
lemma rlInsert_spec (hgrant : heap.Ample)
    (pre tail slack init rest : List RunlistElement) (e l f p : RunlistElement)
    (hf : cell heap (init ++ [l]) 0 = f) (hgap : gapBefore pre f = false)
    (hlast : (joinLeft pre f ++ (init ++ [l]).drop (joinsLeft pre f).toNat).getLast? = some p)
    (htail : tail ≠ [] ∨ e.lcn = lcnEnoent) :
    ∃ slack', rlInsert heap (pre ++ e :: (tail ++ slack)) (pre.length + (tail.length + 1))
        (init ++ l :: rest) (init.length + 1) pre.length =
      .ok (joinLeft pre f ++ ((init ++ [l]).drop (joinsLeft pre f).toNat ++
        afterInsert e p.stopVcn (nextVcn tail) :: (tail ++ slack'))) := by
  unfold rlInsert
  rw [cell_first, hf]
  rw [joinsLeft_eq_ne]
  dsimp only
  rw [gapBefore_eq, hgap, rlRealloc_eq hgrant]
  simp only [bind, Except.bind, pure, Except.pure, Bool.toNat_false, add_zero,
    Bool.false_eq_true, if_false]
  generalize hfresh : replicate _ heap.fresh = fresh
  replace hfresh := congrArg length hfresh
  rw [append_assoc, modify_joinLeft]
  have hone := Bool.toNat_le (joinsLeft pre f)
  set body := (init ++ [l]).drop (joinsLeft pre f).toNat with hbody
  have hbodyLen : body.length = init.length + 1 - (joinsLeft pre f).toNat := by simp [hbody]
  have hlength : pre.length + (init.length + 1) - (joinsLeft pre f).toNat =
      (joinLeft pre f ++ body).length := by
    rw [length_append, joinLeft_length]
    omega
  rw [rlMc_rlMm (joinLeft pre f) (e :: (tail ++ slack) ++ fresh) (joinLeft pre f) (e :: tail)
    (slack ++ fresh) ((init ++ [l]).take (joinsLeft pre f).toNat) body rest rfl]
  · generalize drop _ (joinLeft pre f ++ _) = slack'
    rw [← append_assoc, cons_append, adjustAfter_spec heap tail slack' hlength hlast htail]
    exact ⟨slack', by rw [append_assoc]⟩
  · simp
  · rw [← append_assoc, take_append_drop]
    simp
  all_goals simp at hfresh ⊢
  all_goals omega

/-- `src` starts behind the end of the destination: an unmapped run fills the gap. -/
lemma rlInsert_gap_spec (hgrant : heap.Ample)
    {pre slack init : List RunlistElement} (e l f : RunlistElement)
    (hf : cell heap (init ++ [l]) 0 = f) (hgap : gapBefore pre f = true)
    (hleft : joinsLeft pre f = false) (hend : e.lcn = lcnEnoent)
    (hstop : stop = (pre.getLast?.map RunlistElement.stopVcn).getD 0) :
    ∃ slack', rlInsert heap (pre ++ e :: slack) (pre.length + 1) (init ++ l :: rest)
        (init.length + 1) pre.length =
      .ok (pre ++ { vcn := stop, lcn := lcnRlNotMapped, length := f.vcn - stop } ::
        (init ++ l :: { e with vcn := l.stopVcn } :: slack')) := by
  unfold rlInsert
  rw [cell_first, hf]
  rw [joinsLeft_eq_ne]
  dsimp only
  rw [gapBefore_eq, hgap, hleft, rlRealloc_eq hgrant]
  simp only [bind, Except.bind, pure, Except.pure, Bool.toNat_false, Bool.toNat_true, Nat.sub_zero,
    Bool.false_eq_true, if_false]
  generalize hfresh : replicate _ heap.fresh = fresh
  replace hfresh := congrArg length hfresh
  rw [rlMc_rlMm (pre ++ [e]) (slack ++ fresh) pre [e] (slack ++ fresh) [] (init ++ [l]) rest]
  · generalize drop _ (_ ++ fresh) = slack'
    have hlength : pre.length + (init.length + 1) + 1 = (pre ++ [e] ++ (init ++ [l])).length := by
      simp; omega
    have hlast : (pre ++ [e] ++ (init ++ [l])).getLast? = some l := by
      rw [← append_assoc, getLast?_concat]
    have hafter : afterInsert e l.stopVcn (nextVcn []) = { e with vcn := l.stopVcn } := by
      rw [afterInsert, hend, if_neg (by decide)]
    have hadjust := adjustAfter_spec heap [] slack' hlength hlast (.inr hend)
    rw [hafter] at hadjust
    rw [nil_append] at hadjust
    rw [← append_assoc (pre ++ [e]), singleton_append, hadjust]
    have hprev : (if 0 < pre.length then (cell heap (pre ++ e :: (init ++ l ::
        { e with vcn := l.stopVcn } :: slack')) (pre.length - 1)).stopVcn else 0) = stop := by
      rw [hstop]
      rcases eq_nil_or_concat' pre with rfl | ⟨pre', p, rfl⟩ <;> simp
    simp only [append_assoc, cons_append, nil_append]
    rw [fillGap, hprev, cell_append_right, cell_cons_succ, cell_first, hf]
    simp
  all_goals simp at hfresh ⊢
  all_goals omega

end NtfsDxe
