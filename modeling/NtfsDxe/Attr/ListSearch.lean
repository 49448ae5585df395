import NtfsDxe.Attr.SearchSpec
import Mathlib.Data.List.Nodup

/-! # Searching an attribute list

In a well-formed list the search stops at an entry of the key if there is one, and takes the
last one that fits the vcn. If there is none, it stops where an entry of the key belongs. The
names of neighbouring entries are compared up to a common zero, so that it can pass the last
entry of the key as well.
-/

namespace NtfsDxe

open Foundation SortedSplit List BaseInode

/-! ## Well-formed lists -/

def AttrListEntry.key (e : AttrListEntry) : Nat × Name := (e.type, e.name)

def entryOrder (upcase : List UInt16) (e e' : AttrListEntry) : Ordering :=
  (keyOrder upcase .caseSensitive e.key e'.key).then (compare e.lowestVcn e'.lowestVcn)

instance (upcase : List UInt16) : Std.TransCmp (entryOrder upcase) :=
  have := @transCmp_on AttrListEntry _ (keyOrder upcase .caseSensitive) _ AttrListEntry.key
  inferInstanceAs (Std.TransCmp (compareLex
    (fun e e' : AttrListEntry => keyOrder upcase .caseSensitive e.key e'.key)
    (compareOn AttrListEntry.lowestVcn)))

def BaseInode.recordOf (ni : BaseInode) (e : AttrListEntry) : Option RecordView :=
  if e.mftNo = ni.base.mftNo then some ni.base else ni.openExtent e.mftNo e.seqNo

structure AttrListEntry.Matches (e : AttrListEntry) (a : AttrView) : Prop where
  type : a.type = e.type
  name : a.name = e.name
  instanceNo : a.instanceNo = e.instanceNo

/-- A list that is sorted and whose entries designate attributes. -/
structure WellFormedList (upcase : List UInt16) (ni : BaseInode) : Prop where
  sorted : ni.attrList.Pairwise fun e e' => (entryOrder upcase e e').isLE
  lowestVcn : ∀ e ∈ ni.attrList, 0 ≤ e.lowestVcn
  designates : ∀ e ∈ ni.attrList, ∃ r, ni.recordOf e = some r ∧ r.mftNo = e.mftNo ∧
    r.seqNo = e.seqNo ∧ ∃ a ∈ r.attrs, e.Matches a
  instances : ∀ e ∈ ni.attrList, ∀ r, ni.recordOf e = some r →
    (r.attrs.map AttrView.instanceNo).Nodup
  references : ∀ e ∈ ni.attrList, ∀ e' ∈ ni.attrList, e.mftNo = e'.mftNo → e.seqNo = e'.seqNo

def BaseInode.IsRecord (ni : BaseInode) (r : RecordView) : Prop :=
  r = ni.base ∨ ∃ e ∈ ni.attrList, ni.recordOf e = some r

section

variable {upcase : List UInt16} {ni : BaseInode} {q : AttrQuery}

lemma recordOf_congr (hno : e.mftNo = e'.mftNo) (hseq : e.seqNo = e'.seqNo) :
    ni.recordOf e = ni.recordOf e' := by
  rw [BaseInode.recordOf, BaseInode.recordOf, hno, hseq]

lemma WellFormedList.entryRecord (h : WellFormedList upcase ni) (hmrec : ni.IsRecord mrec)
    (he : e ∈ ni.attrList) (hr : ni.recordOf e = some r) : ni.entryRecord mrec e = .opened r := by
  obtain ⟨r', hr', hno, hseq, -⟩ := h.designates e he
  obtain rfl : r = r' := Option.some.inj (hr.symm.trans hr')
  unfold BaseInode.entryRecord
  by_cases hsame : e.mftNo = mrec.mftNo
  · have hrec : mrec = r := by
      rcases hmrec with rfl | ⟨e', he', hmrec⟩
      · rw [BaseInode.recordOf, if_pos hsame] at hr
        exact Option.some.inj hr
      · obtain ⟨r', hr', hno', -⟩ := h.designates e' he'
        obtain rfl : mrec = r' := Option.some.inj (hmrec.symm.trans hr')
        have hnos := hsame.trans hno'
        have hcongr : ni.recordOf e = ni.recordOf e' :=
          recordOf_congr hnos (h.references e he e' he' hnos)
        exact Option.some.inj (hmrec.symm.trans (hcongr.symm.trans hr))
    rw [if_pos hsame, hrec, if_neg (not_not_intro hseq.symm)]
  · rw [if_neg hsame]
    unfold BaseInode.recordOf at hr
    by_cases hbase : e.mftNo = ni.base.mftNo
    · rw [if_pos hbase] at hr
      rw [if_pos hbase, Option.some.inj hr]
    · rw [if_neg hbase] at hr
      rw [if_neg hbase, hr]

def RecordView.indexOf (r : RecordView) (e : AttrListEntry) : Nat :=
  r.attrs.findIdx fun a => a.instanceNo = e.instanceNo

lemma namesAreEqual_self : namesAreEqual upcase .caseSensitive name name = true := by
  rw [namesAreEqual, if_neg (not_not_intro rfl)]
  induction name with
  | nil => rfl
  | cons c rest ih =>
    simp only [unitsMatch, ne_eq, not_true, if_false]
    split_ifs
    · rfl
    · exact ih

lemma scanRecord_found (hval : ∀ a, q.valueFits a = true)
    (hinst : (attrs.map AttrView.instanceNo).Nodup) (ha : a ∈ attrs) (hmatch : e.Matches a) :
    scanRecord upcase q e attrs attr j =
      .found (j + attrs.findIdx fun a => a.instanceNo = e.instanceNo) := by
  induction attrs generalizing attr j with
  | nil => cases ha
  | cons b rest ih =>
    rw [map_cons, nodup_cons] at hinst
    rw [scanRecord, findIdx_cons]
    rcases mem_cons.mp ha with rfl | ha
    · rw [if_neg (not_not_intro hmatch.type.symm),
        hmatch.name, namesAreEqual_self, hval]
      simp [hmatch.instanceNo]
    · have hne : e.instanceNo ≠ b.instanceNo := by
        rintro heq
        refine hinst.1 (mem_map.mpr ⟨a, ha, ?_⟩)
        exact hmatch.instanceNo.trans heq
      rw [if_pos hne, ih hinst.2 ha]
      have hfalse : decide (b.instanceNo = e.instanceNo) = false := decide_eq_false hne.symm
      rw [hfalse]
      simp only [cond_false]
      congr 1
      omega

lemma indexOf_spec {r : RecordView} (hinst : (r.attrs.map AttrView.instanceNo).Nodup)
    (ha : a ∈ r.attrs) (hmatch : e.Matches a) : r.attrs[r.indexOf e]? = some a := by
  have hlt : r.indexOf e < r.attrs.length :=
    findIdx_lt_length.mpr ⟨a, ha, by simpa using hmatch.instanceNo⟩
  have hfound : (r.attrs[r.indexOf e]).instanceNo = e.instanceNo :=
    of_decide_eq_true (findIdx_getElem (w := hlt))
  rw [getElem?_eq_getElem hlt]
  congr 1
  exact inj_on_of_nodup_map hinst (getElem_mem hlt) ha
    (hfound.trans hmatch.instanceNo.symm)

/-- A search stands at the entry `i` of the list and at its attribute. -/
structure StandsAt (ni : BaseInode) (ctx : SearchCtx) (i : Nat) (e : AttrListEntry) : Prop where
  alEntry : ctx.alEntry = some i
  entry : ni.attrList[i]? = some e
  mrec : ni.recordOf e = some ctx.mrec
  attr : ctx.attr = ctx.mrec.indexOf e
  found : ∃ a, ctx.mrec.attrs[ctx.attr]? = some a ∧ e.Matches a

/-- Where the loop takes an entry, it ends at the attribute of the entry. -/
lemma WellFormedList.loop_found (h : WellFormedList upcase ni) (hmrec : ni.IsRecord ctx.mrec)
    (hval : ∀ a, q.valueFits a = true) (hentry : ni.attrList[i]? = some e)
    (hstep : q.entryStep upcase e rest.head? = .found) :
    ∃ ctx', attrListLoop upcase q ni (e :: rest) i ctx = (ctx', .ok ()) ∧
      StandsAt ni ctx' i e ∧ ctx'.isFirst = ctx.isFirst := by
  have he := mem_of_getElem? hentry
  obtain ⟨r, hr, -, -, a, ha, hmatch⟩ := h.designates e he
  have hinst := h.instances e he r hr
  rw [attrListLoop, hstep]
  rw [h.entryRecord hmrec he hr]
  dsimp only
  rw [scanRecord_found hval hinst ha hmatch, zero_add]
  exact ⟨_, rfl, ⟨rfl, hentry, hr, rfl, a, indexOf_spec hinst ha hmatch, hmatch⟩, rfl⟩

lemma nextFits_iff :
    q.nextFits upcase e (some x) = true ↔ q.lowestVcn ≠ 0 ∧ x.lowestVcn ≤ q.lowestVcn ∧
      x.type = e.type ∧ (x.name = e.name ∨ AgreeToZero x.name e.name) := by
  simp only [AttrQuery.nextFits, Bool.and_eq_true, decide_eq_true_eq, namesAreEqual_iff, and_assoc]
  refine and_congr_right' (and_congr_right' (and_congr_right' (and_iff_right_of_imp ?_)))
  rintro (hname | ⟨common, rest1, rest2, h1, h2, hlength⟩)
  · rw [hname]
  · simp [h1, h2, hlength]

/-- Without a zero in its name the next entry fits only if it is of the same attribute. -/
lemma key_of_nextFits (hzero : ∀ c ∈ e.name, c ≠ 0) (h : q.nextFits upcase e (some x) = true) :
    x.key = e.key := by
  obtain ⟨-, -, htype, hname | ⟨common, -, rest2, -, h2, -⟩⟩ := nextFits_iff.mp h
  · exact Prod.ext htype hname
  · refine absurd rfl (hzero 0 ?_)
    rw [h2]
    exact mem_append_right common mem_cons_self

/-- Entries that are passed without a zero are all of the attribute of the one behind them. -/
lemma key_of_passed {passed tail : List AttrListEntry} (hzero : ∀ x ∈ passed, ∀ c ∈ x.name, c ≠ 0)
    (hpass : ∀ s1 y s2, passed = s1 ++ y :: s2 →
      q.nextFits upcase y (s2 ++ e :: tail).head? = true) : ∀ x ∈ passed, x.key = e.key := by
  induction passed with
  | nil => simp
  | cons y passed ih =>
    have hrest := ih (fun x hx => hzero x (mem_cons_of_mem y hx))
      fun s1 z s2 hz => hpass (y :: s1) z s2 (by rw [hz]; rfl)
    have hfits := hpass [] y passed rfl
    rintro x (_ | ⟨_, hx⟩)
    · cases passed with
      | nil => exact (key_of_nextFits (hzero y mem_cons_self) hfits).symm
      | cons z passed =>
        have hkey := key_of_nextFits (hzero y mem_cons_self) hfits
        exact hkey.symm.trans (hrest z mem_cons_self)
    · exact hrest x hx

lemma nextFits_of_key (hvcn : q.lowestVcn ≠ 0) (hle : x.lowestVcn ≤ q.lowestVcn)
    (hkey : x.key = e.key) : q.nextFits upcase e (some x) = true := by
  obtain ⟨htype, hname⟩ := Prod.mk.inj hkey
  exact nextFits_iff.mpr ⟨hvcn, hle, htype, .inl hname⟩

/-- Of entries that match, the loop passes those whose next one fits. -/
lemma attrListLoop_same (hnamed : q.Named) (htype : q.type ≠ atUnused)
    (same after : List AttrListEntry)
    (hsame : ∀ x ∈ same, keyOrder upcase q.ic q.key x.key = .eq) :
    ∃ passed rest, same = passed ++ rest ∧
      (∀ s1 e s2, passed = s1 ++ e :: s2 →
        q.nextFits upcase e (s2 ++ (rest ++ after)).head? = true) ∧
      (∀ e s2, rest = e :: s2 → q.nextFits upcase e (s2 ++ after).head? = false) ∧
      ∀ i ctx, attrListLoop upcase q ni (same ++ after) i ctx =
        attrListLoop upcase q ni (rest ++ after) (i + passed.length) ctx := by
  induction same with
  | nil => exact ⟨[], [], rfl, by simp, by simp, fun _ _ => rfl⟩
  | cons e same ih =>
    cases hfits : q.nextFits upcase e (same ++ after).head? with
    | false =>
      refine ⟨[], e :: same, rfl, by simp, fun e' s2 heq => ?_, fun _ _ => rfl⟩
      obtain ⟨rfl, rfl⟩ := cons.inj heq
      exact hfits
    | true =>
      obtain ⟨passed, rest, heq, hpass, hstop, hloop⟩ :=
        ih fun y hy => hsame y (mem_cons_of_mem e hy)
      refine ⟨e :: passed, rest, by rw [heq]; rfl, fun s1 e' s2 hcons => ?_, hstop, fun i ctx => ?_⟩
      · cases s1 with
        | nil =>
          obtain ⟨rfl, rfl⟩ := cons.inj hcons
          rwa [← append_assoc, ← heq]
        | cons y s1 => exact hpass s1 e' s2 (cons.inj hcons).2
      · have hstep : q.entryStep upcase e (same ++ after).head? = .next := by
          rw [AttrQuery.entryStep_eq hnamed htype]
          change stepOf (keyOrder upcase q.ic q.key e.key) _ = .next
          rw [hsame e mem_cons_self, hfits]
          rfl
        rw [cons_append, attrListLoop, hstep]
        dsimp only
        rw [attrListLoop_alEntry, hloop, length_cons]
        congr 1
        omega

end

/-! ## Searches -/

def SearchCtx.listStart (ctx : SearchCtx) : Nat :=
  if ctx.isFirst then ctx.alEntry.getD 0 else ctx.alEntry.getD 0 + 1

/-- A search by name in an inode with a list, for an attribute that the list has entries of. -/
structure AttrQuery.ByName (q : AttrQuery) : Prop where
  named : q.Named
  unused : q.type ≠ atUnused
  list : q.type ≠ atAttributeList
  atEnd : q.type ≠ atEnd
  val : q.val = none

section

variable {ni : BaseInode} {q : AttrQuery}

lemma AttrQuery.ByName.valueFits (hq : q.ByName) (a : AttrView) : q.valueFits a = true := by
  rw [AttrQuery.valueFits, hq.val, Bool.or_true]

lemma AttrQuery.ByName.entryStep_before (hq : q.ByName)
    (hgt : keyOrder upcase q.ic q.key x.key = .gt) : q.entryStep upcase x following = .next := by
  rw [AttrListEntry.key] at hgt
  rw [AttrQuery.entryStep_eq hq.named hq.unused, hgt]
  rfl

/-- A search by name is the loop over the rest of the list. -/
lemma attrLookup_eq_loop (hlist : ni.hasAttrList = true) (hq : q.ByName)
    (hstart : ctx.listStart ≤ ni.attrList.length) :
    attrLookup upcase q ni ctx =
      attrListLoop upcase q ni (ni.attrList.drop ctx.listStart) ctx.listStart
        { ctx.enterList ni with isFirst := false } := by
  have hexternal : ¬ (!ni.hasAttrList ∨ q.type = atAttributeList) := by
    rw [hlist]
    rintro (h | h)
    · cases h
    · exact hq.list h
  rw [attrLookup, if_neg hexternal, externalAttrFind, if_neg hq.atEnd]
  unfold SearchCtx.listStart at hstart ⊢
  by_cases hfirst : ctx.isFirst = true
  · rw [if_pos hfirst] at hstart ⊢
    rw [if_neg fun h => hq.unused h.1, if_pos hfirst, searchList, if_neg (not_lt.mpr hstart)]
    exact @attrListLoop_alEntry upcase q ni { ctx.enterList ni with isFirst := false } _ _ _
  · rw [if_neg hfirst] at hstart ⊢
    rw [if_neg fun h => hq.unused h.1, if_neg hfirst, searchList, if_neg (not_lt.mpr hstart),
      attrListLoop_alEntry]
    have hsame : { ctx.enterList ni with isFirst := false } = ctx.enterList ni := by
      rw [Bool.not_eq_true] at hfirst
      rw [SearchCtx.enterList, hfirst]
    rw [hsame]

lemma WellFormedList.sorted_keys (h : WellFormedList upcase ni) (ic : CaseMode) (s : Nat) :
    (ni.attrList.drop s).Pairwise fun e e' => (keyOrder upcase ic e.key e'.key).isLE := by
  refine (h.sorted.sublist (drop_sublist s _)).imp fun {e e'} hle => ?_
  exact keyOrder_isLE ic (Ordering.isLE_then_iff_and.mp hle).1

lemma getElem?_of_drop {l : List AttrListEntry} (h : l.drop s = l1 ++ e :: l2) :
    l[s + l1.length]? = some e := by
  rw [← getElem?_drop, h, getElem?_append_right (le_refl _), Nat.sub_self]
  rfl

lemma lowestVcn_le (h : (entryOrder upcase e e').isLE)
    (hkey : e.key = e'.key) : e.lowestVcn ≤ e'.lowestVcn := by
  unfold entryOrder at h
  rw [keyOrder_eq_iff.mpr hkey] at h
  by_contra hlt
  rw [Int.compare_eq_gt.mpr (by omega)] at h
  cases h

/-- A search that does not find an entry leaves the position in the list. -/
lemma AttrQuery.ByName.listNotFound (hq : q.ByName) (ctx : SearchCtx) :
    (listNotFound upcase q ni ctx).2 = .error .enoent ∧
      (listNotFound upcase q ni ctx).1.alEntry = ctx.alEntry := by
  rw [NtfsDxe.listNotFound, if_neg (not_or.mpr ⟨hq.unused, hq.atEnd⟩)]
  refine drainRecord_enoent _ _ (Nat.zero_le _) ?_
  change ni.base.attrs.length < ni.base.attrs.length + 1 + 0
  omega

/-- A search that finds an entry finds it in the rest of the list. -/
lemma AttrQuery.ByName.le_of_ok (hq : q.ByName)
    (hok : attrListLoop upcase q ni entries i ctx = (ctx', .ok ())) :
    ∃ j, ctx'.alEntry = some j ∧ i ≤ j := by
  have hnone : ∀ c, NtfsDxe.listNotFound upcase q ni c ≠ (ctx', .ok ()) := by
    intro c hfound
    have herror := (hq.listNotFound c : (NtfsDxe.listNotFound upcase q ni c).2 = _ ∧ _).1
    rw [hfound] at herror
    cases herror
  induction entries generalizing i ctx with
  | nil => exact absurd hok (hnone _)
  | cons e rest ih =>
    have hrest : ∀ c, attrListLoop upcase q ni rest (i + 1) c = (ctx', .ok ()) →
        ∃ j, ctx'.alEntry = some j ∧ i ≤ j := by
      intro c hc
      obtain ⟨j, hj, hle⟩ := ih hc
      exact ⟨j, hj, by omega⟩
    rw [attrListLoop] at hok
    split at hok
    · exact absurd hok (hnone _)
    · exact hrest _ hok
    · split at hok
      · cases (Prod.mk.inj hok).2
      · cases (Prod.mk.inj hok).2
      · split at hok
        · obtain ⟨rfl, -⟩ := Prod.mk.inj hok
          exact ⟨i, rfl, le_refl i⟩
        · exact hrest _ hok
        · cases (Prod.mk.inj hok).2

section

variable {ctx : SearchCtx} (hlist : ni.hasAttrList = true) (hq : q.ByName)
include hlist hq

/-- A search passes the entries before its key. -/
lemma attrLookup_eq_rest (hstart : ctx.listStart ≤ ni.attrList.length)
    (hdrop : ni.attrList.drop ctx.listStart = before ++ rest)
    (hbefore : ∀ e ∈ before, keyOrder upcase q.ic q.key e.key = .gt) :
    attrLookup upcase q ni ctx =
      attrListLoop upcase q ni rest (ctx.listStart + before.length)
        { ctx.enterList ni with isFirst := false } := by
  rw [attrLookup_eq_loop hlist hq hstart, hdrop,
    attrListLoop_append fun x hx _ => hq.entryStep_before (hbefore x hx)]

/-- A search passes all entries that match, or it ends at one of them. -/
lemma WellFormedList.lookup_cases (h : WellFormedList upcase ni) (hmrec : ni.IsRecord ctx.mrec)
    (hstart : ctx.listStart ≤ ni.attrList.length) {before same after : List AttrListEntry}
    (hdrop : ni.attrList.drop ctx.listStart = before ++ (same ++ after))
    (hbefore : ∀ e ∈ before, keyOrder upcase q.ic q.key e.key = .gt)
    (hsame : ∀ e ∈ same, keyOrder upcase q.ic q.key e.key = .eq) :
    ((∀ s1 y s2, same = s1 ++ y :: s2 → q.nextFits upcase y (s2 ++ after).head? = true) ∧
      attrLookup upcase q ni ctx =
        attrListLoop upcase q ni after (ctx.listStart + before.length + same.length)
          { ctx.enterList ni with isFirst := false }) ∨
    ∃ ctx' passed e rest, same = passed ++ e :: rest ∧
      (∀ s1 y s2, passed = s1 ++ y :: s2 →
        q.nextFits upcase y (s2 ++ e :: (rest ++ after)).head? = true) ∧
      q.nextFits upcase e (rest ++ after).head? = false ∧
      attrLookup upcase q ni ctx = (ctx', .ok ()) ∧
      StandsAt ni ctx' (ctx.listStart + before.length + passed.length) e := by
  obtain ⟨passed, rest, heq, hpass, hstop, hloop⟩ := @attrListLoop_same upcase ni q
    hq.named hq.unused same after hsame
  have hlookup := attrLookup_eq_rest hlist hq hstart hdrop hbefore
  rw [hloop] at hlookup
  cases rest with
  | nil =>
    rw [append_nil] at heq
    exact .inl ⟨heq ▸ hpass, heq ▸ hlookup⟩
  | cons e rest =>
    have hstep : q.entryStep upcase e (rest ++ after).head? = .found := by
      have hkey := hsame e (heq ▸ mem_append_right passed mem_cons_self)
      rw [AttrQuery.entryStep_eq hq.named hq.unused]
      change stepOf (keyOrder upcase q.ic q.key e.key) _ = .found
      rw [hkey, hstop e rest rfl]
      rfl
    have hentry : ni.attrList[ctx.listStart + before.length + passed.length]? = some e := by
      rw [heq, append_assoc, ← append_assoc before] at hdrop
      rw [add_assoc, ← length_append]
      exact getElem?_of_drop hdrop
    have hentered : ni.IsRecord ({ ctx.enterList ni with isFirst := false } : SearchCtx).mrec :=
      hmrec
    obtain ⟨ctx', hok, hstands, -⟩ := h.loop_found hentered hq.valueFits hentry hstep
    exact .inr ⟨ctx', passed, e, rest, heq, hpass, hstop e rest rfl, hlookup.trans hok, hstands⟩

/-- In a list without zeros in its names, a search that has an entry of the key before it ends
at one of the first attribute that matches. -/
lemma WellFormedList.lookup_found (h : WellFormedList upcase ni) (hmrec : ni.IsRecord ctx.mrec)
    (hstart : ctx.listStart ≤ ni.attrList.length) {before same after : List AttrListEntry}
    (hsplit : Split (fun e => keyOrder upcase q.ic q.key e.key) (ni.attrList.drop ctx.listStart)
      before same after)
    (hzero : ∀ x ∈ same, ∀ c ∈ x.name, c ≠ 0) (hne : same ≠ []) :
    ∃ ctx' s1 e s2, attrLookup upcase q ni ctx = (ctx', .ok ()) ∧
      StandsAt ni ctx' (ctx.listStart + before.length + s1.length) e ∧
      same = s1 ++ e :: s2 ∧ ∀ x ∈ s1, x.key = e.key := by
  rcases h.lookup_cases hlist hq hmrec hstart hsplit.eq hsplit.before_gt hsplit.same_eq with
    ⟨hpass, -⟩ | ⟨ctx', passed, e, rest, heq, hpass, -, hok, hstands⟩
  · -- behind the last entry that matches there is none that fits
    obtain ⟨s1, y, rfl⟩ := (eq_nil_or_concat' same).resolve_left hne
    have hfits := hpass s1 y [] rfl
    cases after with
    | nil => cases hfits
    | cons x after =>
      have hlt := hsplit.after_lt x mem_cons_self
      have hy : y ∈ s1 ++ [y] := mem_append_right s1 mem_cons_self
      rw [key_of_nextFits (hzero y hy) hfits, hsplit.same_eq y hy] at hlt
      cases hlt
  · refine ⟨ctx', passed, e, rest, hok, hstands, heq, ?_⟩
    refine key_of_passed (fun y hy => hzero y ?_) hpass
    rw [heq]
    exact mem_append_left _ hy

end

end

/-! ## Extents -/

/-- The entries that a search goes through. -/
def BaseInode.searched (ni : BaseInode) (ctx : SearchCtx) : List AttrListEntry :=
  ni.attrList.drop ctx.listStart

/-- The first entry of the type and, in the mode of the search, of the name. -/
def AttrQuery.firstMatch (upcase : List UInt16) (q : AttrQuery) (entries : List AttrListEntry) :
    Option AttrListEntry :=
  entries.find? fun e => keyOrder upcase q.ic q.key e.key = .eq

/-- The search ends at the last extent of an attribute that is not above the vcn. -/
def FindsExtent (upcase : List UInt16) (q : AttrQuery) (ni : BaseInode) (ctx : SearchCtx)
    (key : Nat × Name) : Prop :=
  ∃ ctx' i e, attrLookup upcase q ni ctx = (ctx', .ok ()) ∧ StandsAt ni ctx' i e ∧
    ctx.listStart ≤ i ∧ e.key = key ∧ e.lowestVcn ≤ q.lowestVcn ∧
    ∀ y ∈ ni.searched ctx, y.key = key → y.lowestVcn ≤ q.lowestVcn →
      y.lowestVcn ≤ e.lowestVcn

/-- Behind the extents of an attribute, all of them up to the vcn, there is another attribute
that the search takes for one more extent: its name is the same up to a zero. -/
def AttrQuery.Misled (q : AttrQuery) (entries : List AttrListEntry) (key : Nat × Name) : Prop :=
  q.lowestVcn ≠ 0 ∧ ∃ i e x, entries[i]? = some e ∧ entries[i + 1]? = some x ∧
    e.key = key ∧ x.key ≠ key ∧ e.lowestVcn ≤ q.lowestVcn ∧ x.lowestVcn ≤ q.lowestVcn ∧
    x.type = e.type ∧ AgreeToZero x.name e.name

section

variable {upcase : List UInt16} {ni : BaseInode} {q : AttrQuery}
  {entries before run tail s2 : List AttrListEntry} {key : Nat × Name} {y : AttrListEntry}

section

variable
  (hsplit : Split (fun e => keyOrder upcase .caseSensitive key e.key) entries before run tail)
include hsplit

lemma index_key_iff (he : entries[i]? = some e) :
    e.key = key ↔ before.length ≤ i ∧ i < before.length + run.length := by
  rw [← hsplit.index_iff he, keyOrder_eq_iff]
  exact eq_comm

lemma misled_iff (hrun : run = l ++ [z]) :
    q.Misled entries key ↔ z.lowestVcn ≤ q.lowestVcn ∧ q.nextFits upcase z tail.head? = true := by
  have hentries : entries = (before ++ l) ++ z :: tail := by
    rw [hsplit.eq, hrun, append_assoc, append_assoc]
    rfl
  have hz : entries[(before ++ l).length]? = some z := by
    rw [hentries, getElem?_append_right (le_refl _), Nat.sub_self]
    rfl
  have hnext : entries[(before ++ l).length + 1]? = tail.head? := by
    rw [hentries, getElem?_append_right (Nat.le_succ _), Nat.succ_sub (le_refl _), Nat.sub_self,
      head?_eq_getElem?]
    rfl
  have hlength : (before ++ l).length + 1 = before.length + run.length := by
    rw [hrun, length_append, length_append, length_singleton]
    omega
  constructor
  · rintro ⟨hvcn, i, e, x, he, hx, hekey, hxkey, hele, hxle, htype, hname⟩
    have hin := (index_key_iff hsplit he).mp hekey
    have hout := mt (index_key_iff hsplit hx).mpr hxkey
    obtain rfl : i = (before ++ l).length := by omega
    obtain rfl := Option.some.inj (hz.symm.trans he)
    rw [← hnext, hx]
    exact ⟨hele, nextFits_iff.mpr ⟨hvcn, hxle, htype, .inr hname⟩⟩
  · rintro ⟨hle, hfits⟩
    rw [← hnext] at hfits
    cases hx : entries[(before ++ l).length + 1]? with
    | none =>
      rw [hx] at hfits
      cases hfits
    | some x =>
      rw [hx] at hfits
      obtain ⟨hvcn, hxle, htype, hname⟩ := nextFits_iff.mp hfits
      have hkey : z.key = key :=
        (index_key_iff hsplit hz).mpr ⟨by rw [length_append]; omega, by omega⟩
      have hne : x.key ≠ key := mt (index_key_iff hsplit hx).mp (by omega)
      refine ⟨hvcn, _, z, x, hz, hx, hkey, hne, hle, hxle, htype, hname.resolve_left ?_⟩
      exact fun hname => hne ((Prod.ext htype hname : x.key = z.key).trans hkey)

end

/-- The entries of the first attribute that matches, and those before and behind them. -/
lemma WellFormedList.exists_extents (h : WellFormedList upcase ni)
    (hfirst : q.firstMatch upcase (ni.searched ctx) = some f) :
    ∃ before run tail,
      Split (fun e => keyOrder upcase .caseSensitive f.key e.key) (ni.searched ctx)
        before run tail ∧
      (∀ e ∈ before, keyOrder upcase q.ic q.key e.key = .gt) ∧
      keyOrder upcase q.ic q.key f.key = .eq := by
  obtain ⟨before, run, tail, hsplit⟩ :=
    (descends_of_sorted (h.sorted_keys .caseSensitive ctx.listStart) f.key).exists_split
  have hmatch : keyOrder upcase q.ic q.key f.key = .eq := by
    simpa using find?_some hfirst
  refine ⟨before, run, tail, hsplit, fun e he => ?_, hmatch⟩
  have hlt : keyOrder upcase .caseSensitive e.key f.key = .lt :=
    Std.OrientedCmp.lt_of_gt (hsplit.before_gt e he)
  cases hcmp : keyOrder upcase q.ic q.key e.key with
  | gt => rfl
  | lt =>
    have hle := keyOrder_isLE q.ic (by rw [hlt]; rfl)
    have habove := Std.TransCmp.lt_of_lt_of_isLE hcmp hle
    rw [hmatch] at habove
    cases habove
  | eq =>
    -- a match before the first one
    have hsome : (before.find? fun e => keyOrder upcase q.ic q.key e.key = .eq).isSome :=
      find?_isSome.mpr ⟨e, he, by simpa using hcmp⟩
    obtain ⟨g, hg⟩ := Option.isSome_iff_exists.mp hsome
    rw [AttrQuery.firstMatch, searched, hsplit.eq, find?_append, hg, Option.some_or] at hfirst
    obtain rfl := Option.some.inj hfirst
    have hgt := hsplit.before_gt g (mem_of_find?_eq_some hg)
    rw [keyOrder_eq_iff.mpr rfl] at hgt
    cases hgt

lemma WellFormedList.extents_sorted (h : WellFormedList upcase ni)
    (hsplit : Split (fun e => keyOrder upcase .caseSensitive key e.key) (ni.searched ctx)
      before run tail) : run.Pairwise fun e e' => e.lowestVcn ≤ e'.lowestVcn := by
  have hall := h.sorted.sublist (drop_sublist ctx.listStart _)
  rw [← searched, hsplit.eq, pairwise_append, pairwise_append] at hall
  refine hall.2.1.1.imp_of_mem fun {e e'} he he' hle => lowestVcn_le hle ?_
  rw [← keyOrder_eq_iff.mp (hsplit.same_eq e he), keyOrder_eq_iff.mp (hsplit.same_eq e' he')]

section

variable {passed rest : List AttrListEntry} {e x : AttrListEntry}
  (hsorted : (passed ++ e :: rest).Pairwise (·.lowestVcn ≤ ·.lowestVcn))
  (hkeys : ∀ y ∈ rest, y.key = e.key) (hstop : q.nextFits upcase e (rest ++ tail).head? = false)
include hsorted hkeys hstop

/-- The extents behind one whose next entry does not fit are above the vcn, unless the search is
for vcn 0. -/
lemma above_of_stop (hv : q.lowestVcn ≠ 0) (hy : y ∈ rest) : q.lowestVcn < y.lowestVcn := by
  cases rest with
  | nil => cases hy
  | cons w rest =>
    rw [pairwise_append, pairwise_cons, pairwise_cons] at hsorted
    have hw : w.lowestVcn ≤ y.lowestVcn := by
      rcases mem_cons.mp hy with rfl | hy
      · exact le_refl _
      · exact hsorted.2.1.2.1 y hy
    by_contra hle
    have hfits := @nextFits_of_key upcase q e w hv (by omega) (hkeys w mem_cons_self)
    rw [cons_append, head?_cons, hfits] at hstop
    cases hstop

/-- The extent where the search stops is the last one that is not above the vcn. -/
lemma last_of_stop (hpass : ∀ s1 y s2, passed = s1 ++ y :: s2 →
      q.nextFits upcase y (s2 ++ e :: (rest ++ tail)).head? = true)
    (hnonneg : 0 ≤ e.lowestVcn) (hx : x ∈ passed ++ e :: rest) (hvcn : x.lowestVcn ≤ q.lowestVcn) :
    e.lowestVcn ≤ q.lowestVcn ∧
      ∀ y ∈ passed ++ e :: rest, y.lowestVcn ≤ q.lowestVcn → y.lowestVcn ≤ e.lowestVcn := by
  have hparts := hsorted
  rw [pairwise_append, pairwise_cons] at hparts
  obtain ⟨-, ⟨hbehind, -⟩, hfront⟩ := hparts
  constructor
  · rcases eq_nil_or_concat' passed with rfl | ⟨s1, w, rfl⟩
    · rcases mem_cons.mp hx with rfl | hx
      · exact hvcn
      · exact (hbehind x hx).trans hvcn
    · exact (nextFits_iff.mp (hpass s1 w [] rfl)).2.1
  · intro y hy hyvcn
    rw [mem_append, mem_cons] at hy
    rcases hy with hy | rfl | hy
    · exact hfront y hy e mem_cons_self
    · exact le_refl _
    · by_cases hv : q.lowestVcn = 0
      · omega
      · exact absurd (above_of_stop hsorted hkeys hstop hv hy) (not_lt.mpr hyvcn)

/-- Where the search stops at an extent, the one behind the last does not fit. -/
lemma not_fits_of_stop (hlast : passed ++ e :: rest = l ++ [z])
    (hle : z.lowestVcn ≤ q.lowestVcn) : q.nextFits upcase z tail.head? = false := by
  rcases eq_nil_or_concat' rest with rfl | ⟨rest, w, rfl⟩
  · obtain rfl : e = z := singleton_inj.mp (append_inj' hlast rfl).2
    exact hstop
  · have hlast' : passed ++ e :: rest ++ [w] = l ++ [z] := by
      rw [append_assoc]
      exact hlast
    obtain rfl : w = z := singleton_inj.mp (append_inj' hlast' rfl).2
    have hv : q.lowestVcn = 0 := by
      by_contra hv
      have hlt := above_of_stop hsorted hkeys hstop hv (mem_append_right rest mem_cons_self)
      omega
    cases tail with
    | nil => rfl
    | cons t tail =>
      rw [head?_cons, Bool.eq_false_iff]
      exact fun hfits => (nextFits_iff.mp hfits).1 hv

end

/-- A search with an extent up to the vcn before it ends at the last one, unless it is misled. -/
lemma WellFormedList.findsExtent_iff (h : WellFormedList upcase ni)
    (hlist : ni.hasAttrList = true) (hq : q.ByName) (hmrec : ni.IsRecord ctx.mrec)
    (hstart : ctx.listStart ≤ ni.attrList.length)
    (hfirst : q.firstMatch upcase (ni.searched ctx) = some f) (hx : x ∈ ni.searched ctx)
    (hkey : x.key = f.key) (hvcn : x.lowestVcn ≤ q.lowestVcn) :
    FindsExtent upcase q ni ctx f.key ↔ ¬ q.Misled (ni.searched ctx) f.key := by
  obtain ⟨before, run, tail, hsplit, hbefore, hmatch⟩ := h.exists_extents hfirst
  have hrunKey : ∀ y ∈ run, y.key = f.key := fun y hy =>
    (keyOrder_eq_iff.mp (hsplit.same_eq y hy)).symm
  have hmem : ∀ y ∈ ni.searched ctx, y.key = f.key → y ∈ run := fun y hy hykey =>
    hsplit.mem_same hy (keyOrder_eq_iff.mpr hykey.symm)
  have hxrun := hmem x hx hkey
  obtain ⟨l, z, hlast⟩ := (eq_nil_or_concat' run).resolve_left (ne_nil_of_mem hxrun)
  rw [misled_iff hsplit hlast]
  rcases h.lookup_cases hlist hq hmrec hstart hsplit.eq hbefore
    (fun y hy => hrunKey y hy ▸ hmatch) with
    ⟨hpass, hlookup⟩ | ⟨ctx', passed, e, rest, heq, hpass, hends, hok, hstands⟩
  · -- all extents are passed, so that the search goes on behind them
    refine iff_of_false ?_ (not_not_intro ⟨?_, hpass l z [] hlast⟩)
    · rintro ⟨ctx', i, e, hok, hstands, hi, hekey, -⟩
      obtain ⟨j, hj, hle⟩ := hq.le_of_ok (hlookup.symm.trans hok)
      obtain rfl : i = j := Option.some.inj (hstands.alEntry.symm.trans hj)
      have hentry : (ni.searched ctx)[i - ctx.listStart]? = some e := by
        rw [searched, getElem?_drop, Nat.add_sub_of_le hi, hstands.entry]
      have hin := (index_key_iff hsplit hentry).mp hekey
      omega
    · rcases eq_nil_or_concat' l with rfl | ⟨l', w, rfl⟩
      · rw [hlast] at hxrun
        rwa [← mem_singleton.mp hxrun]
      · have hw := hpass l' w [z] (by rw [hlast, append_assoc]; rfl)
        exact (nextFits_iff.mp hw).2.1
  · have he : e ∈ run := heq ▸ mem_append_right passed mem_cons_self
    have hsorted := h.extents_sorted hsplit
    have hkeys : ∀ y ∈ rest, y.key = e.key := fun y hy =>
      (hrunKey y (heq ▸ mem_append_right passed (mem_cons_of_mem e hy))).trans (hrunKey e he).symm
    rw [heq] at hsorted hxrun hlast
    obtain ⟨hle, hgreatest⟩ := last_of_stop hsorted hkeys hends hpass
      (h.lowestVcn e (mem_of_getElem? hstands.entry)) hxrun hvcn
    refine iff_of_true ⟨ctx', _, e, hok, hstands, by omega, hrunKey e he, hle, ?_⟩ ?_
    · exact fun y hy hykey => hgreatest y (heq ▸ hmem y hy hykey)
    · rintro ⟨hzle, hfits⟩
      rw [not_fits_of_stop hsorted hkeys hends hlast hzle] at hfits
      cases hfits

/-! ## The place of a new entry -/

/-- Behind the entries that match, an entry of the key keeps the list sorted exactly if those
before the start of the search and those that match are not above it. -/
lemma WellFormedList.insert_behind_iff (h : WellFormedList upcase ni) {start : Nat}
    {before same after : List AttrListEntry}
    (hsplit : Split (fun e => keyOrder upcase q.ic q.key e.key) (ni.attrList.drop start)
      before same after) (hx : x.key = q.key) :
    (ni.attrList.take start ++ (before ++ same) ++ x :: after).Pairwise
        (fun e e' => (entryOrder upcase e e').isLE) ↔
      (∀ e ∈ ni.attrList.take start, (entryOrder upcase e x).isLE) ∧
      ∀ e ∈ ni.attrList.drop start, keyOrder upcase q.ic q.key e.key = .eq →
        (entryOrder upcase e x).isLE := by
  have hsorted := h.sorted
  rw [← take_append_drop start ni.attrList, hsplit.eq, ← append_assoc before, ← append_assoc]
    at hsorted
  have hafter : ∀ e ∈ after, (entryOrder upcase x e).isLE := by
    intro e he
    have hlt := hsplit.after_lt e he
    rw [← hx] at hlt
    rw [entryOrder, keyOrder_lt_of_mode hlt, Ordering.lt_then]
    rfl
  have hbefore : ∀ e ∈ before, (entryOrder upcase e x).isLE := by
    intro e he
    have hgt := hsplit.before_gt e he
    rw [← hx] at hgt
    rw [entryOrder, keyOrder_lt_of_mode (Std.OrientedCmp.lt_of_gt hgt), Ordering.lt_then]
    rfl
  rw [insert_sorted_iff hsorted hafter]
  constructor
  · intro hall
    refine ⟨fun e he => hall e (mem_append_left _ he), fun e he hmatch => ?_⟩
    exact hall e (mem_append_right _ (mem_append_right before (hsplit.mem_same he hmatch)))
  · rintro ⟨hfront, hmatching⟩ e he
    rcases mem_append.mp he with he | he
    · exact hfront e he
    rcases mem_append.mp he with he | he
    · exact hbefore e he
    · refine hmatching e ?_ (hsplit.same_eq e he)
      rw [hsplit.eq]
      exact mem_append_right before (mem_append_left after he)

/-- Where a search does not find the key, an entry of the key keeps the list sorted exactly if
the entries before the start of the search, and those that matched, are not above it. -/
lemma WellFormedList.insert_iff (h : WellFormedList upcase ni) (hlist : ni.hasAttrList = true)
    (hq : q.ByName) (hmrec : ni.IsRecord ctx.mrec) (hstart : ctx.listStart ≤ ni.attrList.length)
    (hnone : (attrLookup upcase q ni ctx).2 = .error .enoent) :
    ∃ p ≤ ni.attrList.length, (attrLookup upcase q ni ctx).1.alEntry = some p ∧
      ∀ x : AttrListEntry, x.key = q.key →
        ((ni.attrList.take p ++ x :: ni.attrList.drop p).Pairwise
            (fun e e' => (entryOrder upcase e e').isLE) ↔
          (∀ e ∈ ni.attrList.take ctx.listStart, (entryOrder upcase e x).isLE) ∧
          ∀ e ∈ ni.searched ctx, keyOrder upcase q.ic q.key e.key = .eq →
            (entryOrder upcase e x).isLE) := by
  obtain ⟨before, same, after, hsplit⟩ :=
    (descends_of_sorted (h.sorted_keys q.ic ctx.listStart) q.key).exists_split
  rcases h.lookup_cases hlist hq hmrec hstart hsplit.eq hsplit.before_gt hsplit.same_eq with
    ⟨-, hlookup⟩ | ⟨ctx', passed, e, rest, -, -, -, hok, -⟩
  · have hparts : ni.attrList = ni.attrList.take ctx.listStart ++ (before ++ same) ++ after := by
      rw [append_assoc, append_assoc, ← hsplit.eq, take_append_drop]
    have hlength : (ni.attrList.take ctx.listStart ++ (before ++ same)).length =
        ctx.listStart + before.length + same.length := by
      rw [length_append, length_append, length_take, min_eq_left hstart, add_assoc]
    have htotal := congrArg length hparts
    rw [length_append, hlength] at htotal
    refine ⟨ctx.listStart + before.length + same.length, by omega, ?_, fun x hx => ?_⟩
    · rw [hlookup]
      cases after with
      | nil => exact (hq.listNotFound _).2
      | cons e after =>
        have hlt : keyOrder upcase q.ic q.key (e.type, e.name) = .lt :=
          hsplit.after_lt e mem_cons_self
        rw [attrListLoop, AttrQuery.entryStep_eq hq.named hq.unused, hlt]
        exact (hq.listNotFound _).2
    · rw [(congrArg _ hparts).trans (take_left' hlength),
        (congrArg _ hparts).trans (drop_left' hlength)]
      exact h.insert_behind_iff hsplit hx
  · rw [hok] at hnone
    cases hnone

end

end NtfsDxe
