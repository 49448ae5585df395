import NtfsDxe.Attr.Search
import NtfsDxe.Foundation.SortedSplit
import NtfsDxe.Unistr.Order

/-! # What a search for an attribute decides

Attributes in a record and entries in a list are ordered by type and name, the entries also by
their lowest vcn. A search for a name decides by the order of the keys, so that it passes what
is before the key and stops at what is after it.
-/

namespace NtfsDxe

open Foundation SortedSplit List

/-! ## Keys -/

def CaseMode.order (upcase : List UInt16) : CaseMode → Name → Name → Ordering
  | .caseSensitive => nameOrder upcase
  | .ignoreCase => upperOrder upcase

instance (upcase : List UInt16) (ic : CaseMode) : Std.TransCmp (ic.order upcase) := by
  cases ic with
  | caseSensitive => exact inferInstanceAs (Std.TransCmp (nameOrder upcase))
  | ignoreCase => exact inferInstanceAs (Std.TransCmp (upperOrder upcase))

lemma namesFullCollate_eq_order :
    namesFullCollate upcase ic name1 name2 = ic.order upcase name1 name2 := by
  cases ic with
  | caseSensitive => exact namesFullCollate_caseSensitive
  | ignoreCase => exact namesFullCollate_ignoreCase

def keyOrder (upcase : List UInt16) (ic : CaseMode) (x y : Nat × Name) : Ordering :=
  (compare x.1 y.1).then (ic.order upcase x.2 y.2)

instance (upcase : List UInt16) (ic : CaseMode) : Std.TransCmp (keyOrder upcase ic) :=
  have := @transCmp_on (Nat × Name) Name (ic.order upcase) _ Prod.snd
  inferInstanceAs (Std.TransCmp (compareLex (compareOn Prod.fst) fun x y =>
    ic.order upcase x.2 y.2))

variable {upcase : List UInt16}

/-- The names of a mode are sorted if those on disk are. -/
lemma CaseMode.order_isLE (ic : CaseMode) (h : (nameOrder upcase name1 name2).isLE) :
    (ic.order upcase name1 name2).isLE := by
  cases ic with
  | caseSensitive => exact h
  | ignoreCase => exact upperOrder_isLE h

lemma keyOrder_isLE (ic : CaseMode) (h : (keyOrder upcase .caseSensitive x y).isLE) :
    (keyOrder upcase ic x y).isLE := by
  unfold keyOrder at h ⊢
  rw [Ordering.isLE_then_iff_and] at h ⊢
  exact ⟨h.1, h.2.imp_right ic.order_isLE⟩

lemma keyOrder_eq_iff : keyOrder upcase .caseSensitive x y = .eq ↔ x = y := by
  unfold keyOrder
  rw [Ordering.then_eq_eq, Nat.compare_eq_eq, CaseMode.order, nameOrder_eq_iff, Prod.ext_iff]

/-- What comes before a key in a mode comes before it on disk. -/
lemma keyOrder_lt_of_mode (h : keyOrder upcase ic x y = .lt) :
    keyOrder upcase .caseSensitive x y = .lt := by
  by_contra hne
  have hge : (keyOrder upcase .caseSensitive x y).isGE := by
    cases hcmp : keyOrder upcase .caseSensitive x y with
    | lt => exact absurd hcmp hne
    | eq => rfl
    | gt => rfl
  have hmode := keyOrder_isLE ic (Std.OrientedCmp.isGE_iff_isLE.mp hge)
  have hback := Std.OrientedCmp.isGE_iff_isLE.mpr hmode
  rw [h] at hback
  cases hback

lemma order_nil (ic : CaseMode) (name : Name) :
    ic.order upcase [] name = if name ≠ [] then .lt else .eq := by
  cases name with
  | nil => cases ic <;> rfl
  | cons c rest => cases ic <;> rfl

/-! ## Decisions -/

/-- The decision by the order of the key that is searched for and the one that is there. -/
def stepOf (o : Ordering) (same : FindStep) : FindStep :=
  match o with
  | .lt => .absent
  | .gt => .next
  | .eq => same

namespace AttrQuery

def Named (q : AttrQuery) : Prop := ∀ n, q.name ≠ .null n

def key (q : AttrQuery) : Nat × Name := (q.type, q.name.chars)

variable {q : AttrQuery}

lemma nameStep_eq (hnamed : q.Named) (name : Name) :
    q.nameStep upcase name same = stepOf (q.ic.order upcase q.name.chars name) same := by
  unfold nameStep
  split
  next hname =>
    rw [hname, AttrName.chars, order_nil]
    split_ifs <;> rfl
  next n hname => exact absurd hname (hnamed n)
  next hname => rw [namesFullCollate_eq_order]; rfl
  next chars hname => rw [namesFullCollate_eq_order]; rfl

lemma stepOf_keyOrder (type : Nat) (name : Name) :
    stepOf (keyOrder upcase q.ic q.key (type, name)) same =
      if q.type < type then .absent else if type ≠ q.type then .next
      else stepOf (q.ic.order upcase q.name.chars name) same := by
  unfold keyOrder key
  rcases lt_trichotomy q.type type with hlt | heq | hgt
  · rw [if_pos hlt, Nat.compare_eq_lt.mpr hlt]
    rfl
  · rw [if_neg (by omega), if_neg (by omega), Nat.compare_eq_eq.mpr heq]
    rfl
  · rw [if_neg (by omega), if_pos (by omega), Nat.compare_eq_gt.mpr hgt]
    rfl

lemma attrStep_eq (hnamed : q.Named) (htype : q.type ≠ atUnused) (a : AttrView) :
    q.attrStep upcase a = stepOf (keyOrder upcase q.ic q.key (a.type, a.name)) (q.valueStep a) := by
  rw [stepOf_keyOrder, attrStep, nameStep_eq hnamed, if_neg htype]
  simp only [htype, ne_eq, not_false_eq_true, true_and]

lemma entryStep_eq (hnamed : q.Named) (htype : q.type ≠ atUnused) :
    q.entryStep upcase e following =
      stepOf (keyOrder upcase q.ic q.key (e.type, e.name))
        (if q.nextFits upcase e following then .next else .found) := by
  rw [stepOf_keyOrder, entryStep, nameStep_eq hnamed, if_neg htype]

end AttrQuery

/-! ## The loops -/

section Loops

/-- The search in a record passes what is not decided. -/
lemma attrFindLoop_append (h : ∀ a ∈ before, q.attrStep upcase a = .next) :
    attrFindLoop upcase q (before ++ rest) i = attrFindLoop upcase q rest (i + before.length) := by
  induction before generalizing i with
  | nil => rfl
  | cons a before ih =>
    rw [cons_append, attrFindLoop, h a mem_cons_self]
    dsimp only
    rw [ih fun b hb => h b (mem_cons_of_mem a hb), length_cons]
    congr 1
    omega

/-- The loop sets the entry of the context before it uses it. -/
lemma attrListLoop_alEntry (entries : List AttrListEntry) (i : Nat) (al : Option Nat) :
    attrListLoop upcase q ni entries i { ctx with alEntry := al } =
      attrListLoop upcase q ni entries i ctx := by
  cases entries with
  | nil => rfl
  | cons e rest => rfl

lemma attrListLoop_append (h : ∀ e ∈ before, ∀ next, q.entryStep upcase e next = .next) :
    attrListLoop upcase q ni (before ++ rest) i ctx =
      attrListLoop upcase q ni rest (i + before.length) ctx := by
  induction before generalizing i with
  | nil => rfl
  | cons e before ih =>
    rw [cons_append, attrListLoop, h e mem_cons_self]
    dsimp only
    rw [attrListLoop_alEntry, ih fun x hx => h x (mem_cons_of_mem e hx), length_cons]
    congr 1
    omega

/-- The search in a record ends at an attribute or behind the last one. -/
lemma attrFindLoop_bounds (attrs : List AttrView) (i : Nat) :
    i ≤ (attrFindLoop upcase q attrs i).1 ∧
      (attrFindLoop upcase q attrs i).1 ≤ i + attrs.length ∧
      ((attrFindLoop upcase q attrs i).2 = .ok () →
        (attrFindLoop upcase q attrs i).1 < i + attrs.length) ∧
      ((attrFindLoop upcase q attrs i).2 = .ok () ∨
        (attrFindLoop upcase q attrs i).2 = .error .enoent) := by
  induction attrs generalizing i with
  | nil => simp [attrFindLoop]
  | cons a rest ih =>
    obtain ⟨hlo, hhi, hok, hres⟩ := ih (i + 1)
    rw [attrFindLoop, length_cons]
    cases q.attrStep upcase a with
    | found => simp
    | absent => simp
    | next =>
      dsimp only
      exact ⟨by omega, by omega, fun h => by have := hok h; omega, hres⟩

/-- Searching the base record to its end comes to the answer that there are no more. -/
lemma drainRecord_enoent (fuel : Nat) (ctx : SearchCtx) (hstart : ctx.start ≤ ctx.mrec.attrs.length)
    (hfuel : ctx.mrec.attrs.length < fuel + ctx.start) :
    (drainRecord upcase q fuel ctx).2 = .error .enoent ∧
      (drainRecord upcase q fuel ctx).1.alEntry = ctx.alEntry := by
  induction fuel generalizing ctx with
  | zero => omega
  | succ fuel ih =>
    obtain ⟨hlo, hhi, hok, hres⟩ := @attrFindLoop_bounds upcase q
      (ctx.mrec.attrs.drop ctx.start) ctx.start
    rw [length_drop] at hhi hok
    rw [drainRecord, SearchCtx.attrFind, if_neg (by omega)]
    generalize attrFindLoop upcase q (ctx.mrec.attrs.drop ctx.start) ctx.start = out at *
    dsimp only
    rcases hres with hfound | habsent
    · rw [hfound]
      have hlt := hok hfound
      refine ih _ ?_ ?_
      · change out.1 + 1 ≤ ctx.mrec.attrs.length
        omega
      · change ctx.mrec.attrs.length < fuel + (out.1 + 1)
        omega
    · rw [habsent]
      exact ⟨rfl, rfl⟩

end Loops

/-! ## Searching for a value -/

section Values

variable {q : AttrQuery} {val : Buffer} {attrs before same after : List AttrView}

/-- The library's `memcmp` does not order values that differ: the search ends at them. -/
lemma AttrQuery.valueStep_eq (hval : q.val = some val) :
    q.valueStep a =
      if a.value = val then .found else if a.value <+: val then .next else .absent := by
  simp only [valueStep, hval]
  by_cases hrc : val.take (min val.length a.value.length) =
      a.value.take (min val.length a.value.length)
  · rw [show memcmp _ _ = 0 from if_pos hrc, if_pos rfl]
    rcases lt_trichotomy val.length a.value.length with hlt | heq | hgt
    · rw [if_neg hlt.ne, if_pos hlt, if_neg fun h => (h ▸ hlt).false,
        if_neg fun h => not_lt.mpr h.length_le hlt]
    · rw [heq, min_self, take_length, ← heq, take_length] at hrc
      rw [if_pos heq, if_pos hrc.symm]
    · rw [min_eq_right hgt.le, take_length] at hrc
      rw [if_neg hgt.ne', if_neg (lt_asymm hgt), if_neg fun h => (h ▸ hgt).false,
        if_pos (hrc ▸ take_prefix _ val)]
  · have hno : ¬ a.value <+: val := by
      intro hpre
      rw [min_eq_right hpre.length_le, take_length] at hrc
      exact hrc (prefix_iff_eq_take.mp hpre).symm
    have hne : a.value ≠ val := fun h => hno ⟨[], by rw [append_nil, h]⟩
    rw [show memcmp _ _ = -1 from if_neg hrc, if_neg hne, if_neg hno]
    rfl

lemma lt_of_isPrefix {s t : Buffer} (h : s <+: t) (hne : s ≠ t) : s < t := by
  obtain ⟨rest, rfl⟩ := h
  cases rest with
  | nil => exact absurd (append_nil s).symm hne
  | cons b rest =>
    have hlt : s ++ [] < s ++ b :: rest := append_left_lt (nil_lt_cons b rest)
    rwa [append_nil] at hlt

/-- The search in the attributes of one type and name. -/
lemma attrFindLoop_value (hval : q.val = some val)
    (hsame : ∀ a ∈ same, q.attrStep upcase a = q.valueStep a)
    (hafter : ∀ a ∈ after, q.attrStep upcase a = .absent)
    (hsorted : same.Pairwise (·.value < ·.value)) (i : Nat) :
    attrFindLoop upcase q (same ++ after) i =
        (i + (same.filter (·.value < val)).length,
          if ∃ a ∈ same, a.value = val then .ok () else .error .enoent) ↔
      ∀ a ∈ same, a.value < val → a.value <+: val := by
  induction same generalizing i with
  | nil =>
    cases after with
    | nil => simp [attrFindLoop]
    | cons b after => simp [attrFindLoop, hafter b mem_cons_self]
  | cons a same ih =>
    rw [pairwise_cons] at hsorted
    -- behind a value that is not smaller there is no smaller one
    have hrest : ¬ a.value < val → ∀ b ∈ same, ¬ b.value < val ∧ b.value ≠ val := fun hge b hb =>
      ⟨fun h => hge (List.lt_trans (hsorted.1 b hb) h), fun h => hge (h ▸ hsorted.1 b hb)⟩
    rw [cons_append, attrFindLoop, hsame a mem_cons_self, AttrQuery.valueStep_eq hval]
    by_cases heq : a.value = val
    · have hge : ¬ a.value < val := heq ▸ List.lt_irrefl val
      simp_all
    rw [if_neg heq]
    by_cases hpre : a.value <+: val
    · have hnext := ih (fun b hb => hsame b (mem_cons_of_mem a hb)) hsorted.2 (i + 1)
      simp [lt_of_isPrefix hpre heq, heq, hpre, ← hnext, add_assoc, add_comm 1]
    · rw [if_neg hpre]
      by_cases hlt : a.value < val
      · simp [hlt, hpre]
      · simp_all

/-- In a record with the attributes of one type and name in order of their values, a search
ends at a value, or where it belongs, exactly if all smaller values are prefixes of it. -/
theorem attrFind_value_iff (hnamed : q.Named) (htype : q.type ≠ atUnused) (hval : q.val = some val)
    (hsplit : Split (fun a => keyOrder upcase q.ic q.key (a.type, a.name)) attrs before same after)
    (hsorted : same.Pairwise (·.value < ·.value)) :
    attrFindLoop upcase q attrs 0 =
        (before.length + (same.filter (·.value < val)).length,
          if ∃ a ∈ same, a.value = val then .ok () else .error .enoent) ↔
      ∀ a ∈ same, a.value < val → a.value <+: val := by
  have hstep := @AttrQuery.attrStep_eq upcase q hnamed htype
  rw [hsplit.eq, attrFindLoop_append, zero_add]
  · refine attrFindLoop_value hval (fun a ha => ?_) (fun a ha => ?_) hsorted _
    · rw [hstep, hsplit.same_eq a ha]
      rfl
    · rw [hstep, hsplit.after_lt a ha]
      rfl
  · intro a ha
    rw [hstep, hsplit.before_gt a ha]
    rfl

def valueQuery (val : Buffer) : AttrQuery := ⟨0x30, .unnamed, .caseSensitive, 0, some val⟩

def fileNameAttrs (values : List Buffer) : List AttrView := values.map (⟨0x30, [], 0, false, ·⟩)

theorem attrFind_value_longer :
    attrFindLoop [] (valueQuery [5, 6]) (fileNameAttrs [[5], [5, 6]]) 0 = (1, .ok ()) :=
  have hnamed : (valueQuery [5, 6]).Named := fun _ h => by cases h
  (@attrFind_value_iff [] _ _ _ [] (fileNameAttrs [[5], [5, 6]]) [] hnamed (by decide) rfl
    ⟨rfl, by simp, by decide, by simp⟩ (by decide)).mpr (by decide)

/-- The second of two values that differ in their first bytes is not found. -/
theorem attrFind_value_missed :
    attrFindLoop [] (valueQuery [6]) (fileNameAttrs [[5], [6]]) 0 = (0, .error .enoent) := by
  decide

end Values

end NtfsDxe
