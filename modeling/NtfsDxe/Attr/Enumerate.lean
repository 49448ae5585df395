import NtfsDxe.Attr.ListSearch

/-! # Enumerating the attributes of an inode

The attribute list does not have an entry for itself. An enumeration returns it between the
entries of lower and those of higher types; for that it reads the type of the next entry, also
at the end of the list.
-/

namespace NtfsDxe

open Foundation SortedSplit List BaseInode

/-! ## Complete lists -/

def BaseInode.listIndex (ni : BaseInode) : Nat :=
  ni.base.attrs.findIdx fun a => a.type = atAttributeList

/-- A well-formed list that designates each attribute of the inode once, except for the list
itself, which is in the base record. -/
structure CompleteList (upcase : List UInt16) (ni : BaseInode) : Prop
    extends WellFormedList upcase ni where
  hasList : ni.hasAttrList = true
  notListed : ∀ e ∈ ni.attrList, e.type ≠ atAttributeList
  terminated : ∀ a ∈ ni.base.attrs, a.type < atEnd
  baseSorted : ni.base.attrs.Pairwise fun a b => a.type ≤ b.type
  ownAttr : ∃ a ∈ ni.base.attrs, a.type = atAttributeList
  single : ∀ r, ni.IsRecord r → ∀ j a, r.attrs[j]? = some a → a.type = atAttributeList →
    r = ni.base ∧ j = ni.listIndex
  distinct : (ni.attrList.map fun e => (e.mftNo, e.instanceNo)).Nodup
  complete : ∀ r, ni.IsRecord r → ∀ a ∈ r.attrs, a.type ≠ atAttributeList →
    ∃ e ∈ ni.attrList, ni.recordOf e = some r ∧ e.instanceNo = a.instanceNo

def BaseInode.IsAttr (ni : BaseInode) (p : Nat × Nat) : Prop :=
  ∃ r, ni.IsRecord r ∧ p.1 = r.mftNo ∧ p.2 < r.attrs.length

def BaseInode.entryPos (ni : BaseInode) (e : AttrListEntry) : Nat × Nat :=
  (e.mftNo, ((ni.recordOf e).map fun r => r.indexOf e).getD 0)

def BaseInode.listPos (ni : BaseInode) : Nat × Nat := (ni.base.mftNo, ni.listIndex)

section

variable {upcase : List UInt16} {ni : BaseInode} {ctx : SearchCtx} {i : Nat} {e : AttrListEntry}

lemma WellFormedList.position (h : WellFormedList upcase ni) (hstands : StandsAt ni ctx i e) :
    ctx.position = ni.entryPos e := by
  obtain ⟨r, hr, hno, -⟩ := h.designates e (mem_of_getElem? hstands.entry)
  obtain rfl : ctx.mrec = r := Option.some.inj (hstands.mrec.symm.trans hr)
  rw [SearchCtx.position, entryPos, hr, hno, hstands.attr]
  rfl

lemma StandsAt.isRecord (h : StandsAt ni ctx i e) : ni.IsRecord ctx.mrec :=
  .inr ⟨e, mem_of_getElem? h.entry, h.mrec⟩

/-! ## One call -/

lemma nextAttr_step : nextAttrQuery.entryStep upcase e following = .found := if_pos rfl

/-- The next call goes on with the entry at index `i`. -/
def AtEntry (upcase : List UInt16) (ni : BaseInode) (ctx : SearchCtx) (i : Nat) : Prop :=
  i ≤ ni.attrList.length ∧ ∃ c : SearchCtx, ni.IsRecord c.mrec ∧ c.isFirst = false ∧
    attrLookup upcase nextAttrQuery ni ctx =
      attrListLoop upcase nextAttrQuery ni (ni.attrList.drop i) i c

lemma attrLookup_next (hlist : ni.hasAttrList = true) :
    attrLookup upcase nextAttrQuery ni ctx = externalAttrFind upcase nextAttrQuery ni ctx := by
  refine if_neg ?_
  rw [hlist]
  decide

section

variable (h : CompleteList upcase ni)
include h

lemma CompleteList.ready_next (hstands : StandsAt ni ctx i e) (hfirst : ctx.isFirst = false)
    (hpass : ¬ (e.type < atAttributeList ∧ atAttributeList < ni.typeAt (i + 1))) :
    AtEntry upcase ni ctx (i + 1) := by
  have hlt : i < ni.attrList.length := (List.getElem?_eq_some_iff.mp hstands.entry).1
  have htype : ni.typeAt i = e.type := by
    rw [typeAt, hstands.entry]
  refine ⟨hlt, { ctx.enterList ni with alEntry := some i }, hstands.isRecord, hfirst, ?_⟩
  rw [attrLookup_next h.hasList, externalAttrFind, if_neg (by decide), hfirst, hstands.alEntry,
    Option.getD_some, if_neg Bool.false_ne_true, htype, if_neg fun hand => hpass hand.2, searchList,
    if_neg (by omega)]

lemma CompleteList.ready_again (hmrec : ni.IsRecord ctx.mrec) (hfirst : ctx.isFirst = true)
    (hentry : ctx.alEntry = some i) (hle : i ≤ ni.attrList.length) : AtEntry upcase ni ctx i := by
  refine ⟨hle, { ctx.enterList ni with alEntry := some i, isFirst := false }, hmrec, rfl, ?_⟩
  rw [attrLookup_next h.hasList, externalAttrFind, if_neg (by decide), if_pos hfirst, hentry,
    if_neg (by simp), Option.getD_some, searchList, if_neg (by omega)]

lemma CompleteList.ready_first (hpass : ¬ atAttributeList < ni.typeAt 0) :
    AtEntry upcase ni ni.searchCtx 0 := by
  refine ⟨Nat.zero_le _, { ni.searchCtx.enterList ni with alEntry := some 0, isFirst := false },
    .inl rfl, rfl, ?_⟩
  have hfirst : ni.searchCtx.isFirst = true := rfl
  rw [attrLookup_next h.hasList, externalAttrFind, if_neg (by decide), if_pos hfirst,
    if_neg fun hand => hpass hand.2.2]
  exact if_neg (Nat.not_lt_zero _)

lemma CompleteList.call_entry (hready : AtEntry upcase ni ctx i)
    (hentry : ni.attrList[i]? = some e) :
    ∃ ctx', attrLookup upcase nextAttrQuery ni ctx = (ctx', .ok ()) ∧ StandsAt ni ctx' i e ∧
      ctx'.isFirst = false := by
  obtain ⟨-, c, hmrec, hfirst, hrun⟩ := hready
  obtain ⟨hlt, hget⟩ := List.getElem?_eq_some_iff.mp hentry
  obtain ⟨ctx', hok, hstands, hkept⟩ := h.toWellFormedList.loop_found hmrec
    (fun _ => rfl) hentry nextAttr_step
  refine ⟨ctx', ?_, hstands, hkept.trans hfirst⟩
  rw [hrun, drop_eq_getElem_cons hlt, hget, hok]

/-- At the end of the list there are no more attributes. -/
lemma CompleteList.call_end (hready : AtEntry upcase ni ctx ni.attrList.length) :
    (attrLookup upcase nextAttrQuery ni ctx).2 = .error .enoent := by
  obtain ⟨-, c, -, -, hrun⟩ := hready
  have hpass : ∀ a ∈ ni.base.attrs,
      ({ nextAttrQuery with type := atEnd } : AttrQuery).attrStep upcase a = .next := by
    intro a ha
    have hlt := h.terminated a ha
    rw [AttrQuery.attrStep, if_neg fun hand => absurd hand.2 (by dsimp only; omega)]
    exact if_pos hlt.ne
  rw [hrun, drop_length, attrListLoop]
  have hloop := @attrFindLoop_append upcase ni.base.attrs _ [] 0 hpass
  rw [append_nil] at hloop
  change (attrFindLoop upcase _ (ni.base.attrs.drop 0) 0).2 = _
  rw [drop_zero, hloop]
  rfl

lemma CompleteList.find_list :
    attrFindLoop upcase ⟨atAttributeList, .null 0, .ignoreCase, 0, none⟩ ni.base.attrs 0 =
      (ni.listIndex, .ok ()) := by
  obtain ⟨a, ha, htype⟩ := h.ownAttr
  have hsorted := h.baseSorted
  unfold listIndex
  -- the attributes before the list have lower types, so that the search passes them
  suffices hgen : ∀ (attrs : List AttrView) (i : Nat), a ∈ attrs →
      attrs.Pairwise (fun a b => a.type ≤ b.type) →
      attrFindLoop upcase ⟨atAttributeList, .null 0, .ignoreCase, 0, none⟩ attrs i =
        (i + attrs.findIdx fun a => a.type = atAttributeList, .ok ()) by
    rw [hgen _ 0 ha hsorted, zero_add]
  intro attrs
  induction attrs with
  | nil =>
    intro i hmem
    cases hmem
  | cons b rest ih =>
    intro i hmem hpair
    rw [pairwise_cons] at hpair
    have hle : b.type ≤ atAttributeList := by
      rcases mem_cons.mp hmem with rfl | hmem
      · exact htype.le
      · exact (hpair.1 a hmem).trans htype.le
    rw [attrFindLoop, AttrQuery.attrStep, if_neg fun hand => absurd hand.2 (not_lt.mpr hle),
      if_neg (by decide), findIdx_cons]
    by_cases hb : b.type = atAttributeList
    · rw [if_neg (not_not_intro hb), decide_eq_true hb]
      rfl
    · have hrest : a ∈ rest := by
        rcases mem_cons.mp hmem with rfl | hmem
        · exact absurd htype hb
        · exact hmem
      rw [if_pos hb, decide_eq_false hb]
      dsimp only
      rw [ih (i + 1) hrest hpair.2, cond_false]
      congr 1
      omega

end

/-- What the call returns that has come to the place of the attribute list. -/
structure AtList (ni : BaseInode) (ctx : SearchCtx) (i : Nat) : Prop where
  position : ctx.position = ni.listPos
  mrec : ctx.mrec = ni.base
  isFirst : ctx.isFirst = true
  alEntry : ctx.alEntry = some i

lemma CompleteList.findAttrListAttr (h : CompleteList upcase ni) :
    ∃ ctx', findAttrListAttr upcase nextAttrQuery ni i c = (ctx', .ok ()) ∧ AtList ni ctx' i := by
  have hargs : ¬ (nextAttrQuery.name ≠ .null 0 ∨ nextAttrQuery.val ≠ none ∨
      nextAttrQuery.lowestVcn ≠ 0) := by decide
  have hfind : SearchCtx.attrFind upcase ⟨atAttributeList, .null 0, .ignoreCase, 0, none⟩
      { c with mrec := ni.base, isFirst := true, attr := 0 } =
      ({ c with mrec := ni.base, isFirst := false, attr := ni.listIndex }, .ok ()) := by
    rw [SearchCtx.attrFind]
    simp only [SearchCtx.start, if_true, Nat.not_lt_zero, if_false, drop_zero, h.find_list]
  rw [NtfsDxe.findAttrListAttr, if_neg hargs, hfind]
  exact ⟨_, rfl, rfl, rfl, rfl, rfl⟩

/-- Between the lower and the higher types the list itself is returned. -/
lemma CompleteList.call_list (h : CompleteList upcase ni) (hstands : StandsAt ni ctx i e)
    (hfirst : ctx.isFirst = false) (hlow : e.type < atAttributeList)
    (hhigh : atAttributeList < ni.typeAt (i + 1)) :
    ∃ ctx', attrLookup upcase nextAttrQuery ni ctx = (ctx', .ok ()) ∧ AtList ni ctx' (i + 1) := by
  have htype : ni.typeAt i = e.type := by
    rw [typeAt, hstands.entry]
  rw [attrLookup_next h.hasList, externalAttrFind, if_neg (by decide), hfirst, hstands.alEntry,
    Option.getD_some, if_neg Bool.false_ne_true, htype, if_pos ⟨rfl, hlow, hhigh⟩]
  exact h.findAttrListAttr

/-- If there are no lower types, the list is returned first. -/
lemma CompleteList.call_list_first (h : CompleteList upcase ni)
    (hhigh : atAttributeList < ni.typeAt 0) :
    ∃ ctx', attrLookup upcase nextAttrQuery ni ni.searchCtx = (ctx', .ok ()) ∧
      AtList ni ctx' 0 := by
  have hfirst : ni.searchCtx.isFirst = true := rfl
  rw [attrLookup_next h.hasList, externalAttrFind, if_neg (by decide), if_pos hfirst,
    if_pos ⟨rfl, rfl, hhigh⟩]
  exact h.findAttrListAttr

/-! ## All calls -/

variable {ctx' : SearchCtx} {calls : Nat} {high : List AttrListEntry}

lemma enumerateAttrs_ok (hok : attrLookup upcase nextAttrQuery ni ctx = (ctx', .ok ()))
    (hrest : enumerateAttrs upcase ni calls ctx' = (l, err)) :
    enumerateAttrs upcase ni (calls + 1) ctx = (ctx'.position :: l, err) := by
  rw [enumerateAttrs, hok]
  dsimp only
  rw [hrest]

lemma enumerateAttrs_end (hcalls : 0 < calls)
    (hend : (attrLookup upcase nextAttrQuery ni ctx).2 = .error .enoent) :
    enumerateAttrs upcase ni calls ctx = ([], some .enoent) := by
  obtain ⟨calls, rfl⟩ := Nat.exists_eq_succ_of_ne_zero (Nat.pos_iff_ne_zero.mp hcalls)
  rw [enumerateAttrs]
  generalize attrLookup upcase nextAttrQuery ni ctx = out at hend ⊢
  obtain ⟨ctx', res⟩ := out
  change res = _ at hend
  rw [hend]

lemma drop_cons_iff {l : List AttrListEntry} :
    l.drop i = e :: rest ↔ l[i]? = some e ∧ l.drop (i + 1) = rest := by
  rw [← head?_drop, ← tail_drop]
  cases l.drop i <;> simp

lemma CompleteList.enumerate_high (h : CompleteList upcase ni) (high : List AttrListEntry)
    (hdrop : ni.attrList.drop i = high) (hready : AtEntry upcase ni ctx i)
    (hhigh : ∀ e ∈ high, atAttributeList < e.type) (hcalls : high.length < calls) :
    enumerateAttrs upcase ni calls ctx = (high.map ni.entryPos, some .enoent) := by
  induction high generalizing i ctx calls with
  | nil =>
    have hlen : i = ni.attrList.length := le_antisymm hready.1 (drop_eq_nil_iff.mp hdrop)
    exact enumerateAttrs_end hcalls (h.call_end (hlen ▸ hready))
  | cons e high ih =>
    obtain ⟨hentry, htail⟩ := drop_cons_iff.mp hdrop
    obtain ⟨ctx', hok, hstands, hfirst⟩ := h.call_entry hready hentry
    have he := hhigh e mem_cons_self
    obtain ⟨calls, rfl⟩ := Nat.exists_eq_add_of_lt hcalls
    have hrest := ih htail (h.ready_next hstands hfirst fun hand => by omega)
      (fun x hx => hhigh x (mem_cons_of_mem e hx))
      (show high.length < (e :: high).length + calls by rw [length_cons]; omega)
    rw [map_cons, ← h.toWellFormedList.position hstands]
    exact enumerateAttrs_ok hok hrest

lemma typeAt_of_drop (hdrop : ni.attrList.drop i = e :: rest) : ni.typeAt i = e.type := by
  rw [typeAt, (drop_cons_iff.mp hdrop).1]

lemma typeAt_of_end (hle : ni.attrList.length ≤ i) : ni.typeAt i = ni.typeBehind := by
  rw [typeAt, getElem?_eq_none hle]

/-- The attribute list, if it is returned before the entry at index `i`. -/
def BaseInode.listShown (ni : BaseInode) (i : Nat) : List (Nat × Nat) :=
  if atAttributeList < ni.typeAt i then [ni.listPos] else []

section

variable (h : CompleteList upcase ni)
include h

/-- When the lower types have been returned, the list is returned unless the type at its place
is not higher, and then the entries of higher types. -/
lemma CompleteList.enumerate_rest (hdrop : ni.attrList.drop i = high)
    (hle : i ≤ ni.attrList.length) (hhigh : ∀ e ∈ high, atAttributeList < e.type)
    (hlist : atAttributeList < ni.typeAt i → ∃ ctx', attrLookup upcase nextAttrQuery ni ctx =
      (ctx', .ok ()) ∧ AtList ni ctx' i)
    (hpass : ¬ atAttributeList < ni.typeAt i → AtEntry upcase ni ctx i)
    (hcalls : (ni.listShown i).length + high.length < calls) :
    enumerateAttrs upcase ni calls ctx =
      (ni.listShown i ++ high.map ni.entryPos, some .enoent) := by
  unfold listShown at hcalls ⊢
  by_cases hshow : atAttributeList < ni.typeAt i
  · rw [if_pos hshow] at hcalls ⊢
    obtain ⟨ctx', hok, hat⟩ := hlist hshow
    have hready := h.ready_again (.inl hat.mrec) hat.isFirst hat.alEntry hle
    obtain ⟨calls, rfl⟩ := Nat.exists_eq_add_of_lt hcalls
    have hrest := h.enumerate_high high hdrop hready hhigh
      (show high.length < [ni.listPos].length + high.length + calls by simp; omega)
    rw [← hat.position]
    exact enumerateAttrs_ok hok hrest
  · rw [if_neg hshow] at hcalls ⊢
    rw [length_nil, zero_add] at hcalls
    exact h.enumerate_high high hdrop (hpass hshow) hhigh hcalls

lemma CompleteList.enumerate_low (hdrop : ni.attrList.drop i = low ++ high)
    (hready : AtEntry upcase ni ctx i) (hlow : ∀ e ∈ low, e.type < atAttributeList)
    (hhigh : ∀ e ∈ high, atAttributeList < e.type) (hne : low ≠ [])
    (hcalls : low.length + ((ni.listShown (i + low.length)).length + high.length) < calls) :
    enumerateAttrs upcase ni calls ctx =
      (low.map ni.entryPos ++ (ni.listShown (i + low.length) ++ high.map ni.entryPos),
        some .enoent) := by
  induction low generalizing i ctx calls with
  | nil => exact absurd rfl hne
  | cons e low ih =>
    obtain ⟨hentry, htail⟩ := drop_cons_iff.mp hdrop
    obtain ⟨ctx', hok, hstands, hfirst⟩ := h.call_entry hready hentry
    have hindex : i + (e :: low).length = i + 1 + low.length := by
      rw [length_cons]
      omega
    rw [hindex] at hcalls ⊢
    obtain ⟨calls, rfl⟩ := Nat.exists_eq_add_of_lt hcalls
    rw [map_cons, ← h.toWellFormedList.position hstands]
    refine enumerateAttrs_ok hok ?_
    cases low with
    | cons x low =>
      have hxlow := hlow x (mem_cons_of_mem e mem_cons_self)
      refine ih htail (h.ready_next hstands hfirst fun hand => ?_)
        (fun y hy => hlow y (mem_cons_of_mem e hy)) (cons_ne_nil x low) ?_
      · rw [typeAt_of_drop htail] at hand
        omega
      · omega
    | nil =>
      refine h.enumerate_rest htail (List.getElem?_eq_some_iff.mp hentry).1 hhigh
        (h.call_list hstands hfirst (hlow e mem_cons_self))
        (fun hshow => h.ready_next hstands hfirst fun hand => hshow hand.2) ?_
      omega

lemma CompleteList.enumerate (heq : ni.attrList = low ++ high)
    (hlow : ∀ e ∈ low, e.type < atAttributeList) (hhigh : ∀ e ∈ high, atAttributeList < e.type)
    (hcalls : low.length + ((ni.listShown low.length).length + high.length) < calls) :
    enumerateAttrs upcase ni calls ni.searchCtx =
      (low.map ni.entryPos ++ (ni.listShown low.length ++ high.map ni.entryPos), some .enoent) := by
  have hdrop : ni.attrList.drop 0 = low ++ high := by rw [drop_zero, heq]
  cases low with
  | cons e low =>
    have hfirst : ¬ atAttributeList < ni.typeAt 0 := by
      rw [typeAt_of_drop hdrop]
      exact lt_asymm (hlow e mem_cons_self)
    rw [← zero_add (e :: low).length] at hcalls ⊢
    refine h.enumerate_low hdrop (h.ready_first hfirst) hlow hhigh
      (cons_ne_nil e low) ?_
    rwa [zero_add] at hcalls ⊢
  | nil =>
    rw [length_nil, zero_add] at hcalls
    exact h.enumerate_rest hdrop (Nat.zero_le _) hhigh h.call_list_first h.ready_first hcalls

/-! ## Every attribute once -/

lemma CompleteList.entryPos_spec (he : e ∈ ni.attrList) :
    ∃ r a, ni.recordOf e = some r ∧ r.mftNo = e.mftNo ∧ ni.entryPos e = (r.mftNo, r.indexOf e) ∧
      r.attrs[r.indexOf e]? = some a ∧ e.Matches a := by
  obtain ⟨r, hr, hno, -, a, ha, hmatch⟩ := h.designates e he
  refine ⟨r, a, hr, hno, ?_, indexOf_spec (h.instances e he r hr) ha hmatch, hmatch⟩
  rw [entryPos, hr, hno]
  rfl

lemma CompleteList.entryPos_isAttr (he : e ∈ ni.attrList) : ni.IsAttr (ni.entryPos e) := by
  obtain ⟨r, a, hr, -, hpos, hget, -⟩ := h.entryPos_spec he
  rw [hpos]
  exact ⟨r, .inr ⟨e, he, hr⟩, rfl, (List.getElem?_eq_some_iff.mp hget).1⟩

lemma CompleteList.listIndex_spec :
    ∃ a, ni.base.attrs[ni.listIndex]? = some a ∧ a.type = atAttributeList := by
  obtain ⟨a, ha, htype⟩ := h.ownAttr
  have hlt : ni.listIndex < ni.base.attrs.length :=
    findIdx_lt_length.mpr ⟨a, ha, by simpa using htype⟩
  exact ⟨_, getElem?_eq_getElem hlt, of_decide_eq_true (findIdx_getElem (w := hlt))⟩

lemma CompleteList.listPos_isAttr : ni.IsAttr ni.listPos := by
  obtain ⟨a, hget, -⟩ := h.listIndex_spec
  exact ⟨ni.base, .inl rfl, rfl, (List.getElem?_eq_some_iff.mp hget).1⟩

lemma CompleteList.entryPos_ne_listPos (he : e ∈ ni.attrList) : ni.entryPos e ≠ ni.listPos := by
  intro heq
  obtain ⟨r, a, hr, hno, hpos, hget, hmatch⟩ := h.entryPos_spec he
  rw [hpos] at heq
  obtain ⟨hbase, hindex⟩ := Prod.mk.inj heq
  obtain rfl : ni.base = r := by
    rw [BaseInode.recordOf, if_pos (hno.symm.trans hbase)] at hr
    exact Option.some.inj hr
  obtain ⟨b, hb, htype⟩ := h.listIndex_spec
  rw [hindex, hb] at hget
  obtain rfl := Option.some.inj hget
  exact h.notListed e he (hmatch.type.symm.trans htype)

lemma CompleteList.isAttr_cases (hp : ni.IsAttr p) :
    p = ni.listPos ∨ ∃ e ∈ ni.attrList, ni.entryPos e = p := by
  obtain ⟨r, hr, hno, hlt⟩ := hp
  have hget := getElem?_eq_getElem hlt
  by_cases htype : (r.attrs[p.2]).type = atAttributeList
  · obtain ⟨rfl, hindex⟩ := h.single r hr p.2 _ hget htype
    exact .inl (Prod.ext hno hindex)
  · obtain ⟨e, he, hre, hinst⟩ := h.complete r hr _ (getElem_mem hlt) htype
    obtain ⟨r', a, hr', -, hpos, hgetE, hmatch⟩ := h.entryPos_spec he
    obtain rfl : r = r' := Option.some.inj (hre.symm.trans hr')
    refine .inr ⟨e, he, hpos.trans (Prod.ext hno.symm ?_)⟩
    have hsame : a = r.attrs[p.2] :=
      inj_on_of_nodup_map (h.instances e he r hre) (mem_of_getElem? hgetE)
        (getElem_mem hlt) (hmatch.instanceNo.trans hinst)
    rw [hsame, ← hget] at hgetE
    have hnodup := (h.instances e he r hre).of_map _
    exact (List.getElem?_inj (List.getElem?_eq_some_iff.mp (hgetE.trans hget)).1 hnodup).mp hgetE

lemma CompleteList.entryPos_nodup : (ni.attrList.map ni.entryPos).Nodup := by
  refine (nodup_map_iff_inj_on (h.distinct.of_map _)).mpr fun e he e' he' heq => ?_
  obtain ⟨r, a, hr, hno, hpos, hget, hmatch⟩ := h.entryPos_spec he
  obtain ⟨r', a', hr', hno', hpos', hget', hmatch'⟩ := h.entryPos_spec he'
  rw [hpos, hpos'] at heq
  obtain ⟨hnos, hindex⟩ := Prod.mk.inj heq
  have hmft := hno.symm.trans (hnos.trans hno')
  have hrec : ni.recordOf e = ni.recordOf e' := recordOf_congr hmft (h.references e he e' he' hmft)
  obtain rfl : r = r' := Option.some.inj (hr.symm.trans (hrec.trans hr'))
  rw [hindex, hget'] at hget
  obtain rfl := Option.some.inj hget
  refine inj_on_of_nodup_map h.distinct he he' (Prod.ext hmft ?_)
  exact hmatch.instanceNo.symm.trans hmatch'.instanceNo

lemma CompleteList.exists_parts :
    ∃ low high, ni.attrList = low ++ high ∧ (∀ e ∈ low, e.type < atAttributeList) ∧
      ∀ e ∈ high, atAttributeList < e.type := by
  have hsorted : ni.attrList.Pairwise fun e e' => (compare e.type e'.type).isLE :=
    h.sorted.imp fun hle =>
      (Ordering.isLE_then_iff_and.mp (Ordering.isLE_then_iff_and.mp hle).1).1
  obtain ⟨low, same, high, hsplit⟩ := (descends_of_sorted hsorted atAttributeList).exists_split
  have hnone : same = [] := by
    cases same with
    | nil => rfl
    | cons e same =>
      have he : e ∈ ni.attrList := by
        rw [hsplit.eq]
        exact mem_append_right low mem_cons_self
      have heq := Nat.compare_eq_eq.mp (hsplit.same_eq e mem_cons_self)
      exact absurd heq.symm (h.notListed e he)
  have heq := hsplit.eq
  rw [hnone] at heq
  exact ⟨low, high, heq, fun e he => Nat.compare_eq_gt.mp (hsplit.before_gt e he),
    fun e he => Nat.compare_eq_lt.mp (hsplit.after_lt e he)⟩

/-- An enumeration returns every attribute once, and then that there are no more, exactly if
the list has an entry of a higher type or such a type is read behind it. -/
lemma CompleteList.enumerates_iff :
    ∃ l, (∀ calls, l.length < calls →
        enumerateAttrs upcase ni calls ni.searchCtx = (l, some .enoent)) ∧
      ((l.Nodup ∧ ∀ p, p ∈ l ↔ ni.IsAttr p) ↔
        (∃ e ∈ ni.attrList, atAttributeList < e.type) ∨ atAttributeList < ni.typeBehind) := by
  obtain ⟨low, high, heq, hlow, hhigh⟩ := h.exists_parts
  refine ⟨low.map ni.entryPos ++ (ni.listShown low.length ++ high.map ni.entryPos), ?_, ?_⟩
  · intro calls hcalls
    refine h.enumerate heq hlow hhigh ?_
    simpa only [length_append, length_map] using hcalls
  have hshown : atAttributeList < ni.typeAt low.length ↔
      (∃ e ∈ ni.attrList, atAttributeList < e.type) ∨ atAttributeList < ni.typeBehind := by
    have hdrop : ni.attrList.drop low.length = high := by rw [heq, drop_left]
    cases high with
    | cons e high =>
      rw [typeAt_of_drop hdrop]
      refine ⟨fun hlt => .inl ⟨e, ?_, hlt⟩, fun _ => hhigh e mem_cons_self⟩
      rw [heq]
      exact mem_append_right low mem_cons_self
    | nil =>
      rw [append_nil] at heq
      rw [typeAt_of_end (by rw [heq])]
      refine ⟨.inr, ?_⟩
      rintro (⟨e, he, hlt⟩ | hbehind)
      · exact absurd hlt (lt_asymm (hlow e (heq ▸ he)))
      · exact hbehind
  have hentries := h.entryPos_nodup
  rw [heq, map_append] at hentries
  have hmem : ∀ p, (∃ e ∈ ni.attrList, ni.entryPos e = p) ↔
      p ∈ low.map ni.entryPos ∨ p ∈ high.map ni.entryPos := by
    intro p
    rw [← mem_append, ← map_append, ← heq, mem_map]
  rw [← hshown, listShown]
  by_cases hshow : atAttributeList < ni.typeAt low.length
  · rw [if_pos hshow]
    refine iff_of_true ⟨?_, fun p => ?_⟩ hshow
    · rw [singleton_append, nodup_middle, nodup_cons]
      refine ⟨fun hin => ?_, hentries⟩
      obtain ⟨e, he, hpos⟩ := (hmem _).mpr (mem_append.mp hin)
      exact h.entryPos_ne_listPos he hpos
    · rw [mem_append, singleton_append, mem_cons]
      constructor
      · rintro (hp | rfl | hp)
        · obtain ⟨e, he, rfl⟩ := (hmem p).mpr (.inl hp)
          exact h.entryPos_isAttr he
        · exact h.listPos_isAttr
        · obtain ⟨e, he, rfl⟩ := (hmem p).mpr (.inr hp)
          exact h.entryPos_isAttr he
      · intro hp
        rcases h.isAttr_cases hp with rfl | hentry
        · exact .inr (.inl rfl)
        · exact ((hmem p).mp hentry).imp_right .inr
  · rw [if_neg hshow]
    refine iff_of_false (fun hall => ?_) hshow
    have hlist := (hall.2 ni.listPos).mpr h.listPos_isAttr
    obtain ⟨e, he, hpos⟩ := (hmem _).mpr (mem_append.mp hlist)
    exact h.entryPos_ne_listPos he hpos

end

/-! ## Searching across records -/

/-- In an inode with a complete list, an enumeration returns every attribute once exactly if
there is a type above that of the list. A search by name, from any position, finds the last
extent up to the vcn of the first attribute that matches exactly if it is not misled. Where it
finds none, the attribute belongs exactly if nothing that comes after it was passed. -/
theorem attrLookup_list (upcase : List UInt16) (ni : BaseInode) (h : CompleteList upcase ni) :
    (∃ l, (∀ calls, l.length < calls →
        enumerateAttrs upcase ni calls ni.searchCtx = (l, some .enoent)) ∧
      ((l.Nodup ∧ ∀ p, p ∈ l ↔ ni.IsAttr p) ↔
        (∃ e ∈ ni.attrList, atAttributeList < e.type) ∨ atAttributeList < ni.typeBehind)) ∧
    ∀ (q : AttrQuery) (ctx : SearchCtx), q.ByName → ni.IsRecord ctx.mrec →
      ctx.listStart ≤ ni.attrList.length →
      (∀ f x, q.firstMatch upcase (ni.searched ctx) = some f → x ∈ ni.searched ctx →
        x.key = f.key → x.lowestVcn ≤ q.lowestVcn →
        (FindsExtent upcase q ni ctx f.key ↔ ¬ q.Misled (ni.searched ctx) f.key)) ∧
      ((attrLookup upcase q ni ctx).2 = .error .enoent →
        ∃ p ≤ ni.attrList.length, (attrLookup upcase q ni ctx).1.alEntry = some p ∧
          ∀ x : AttrListEntry, x.key = q.key →
            ((ni.attrList.take p ++ x :: ni.attrList.drop p).Pairwise
                (fun e e' => (entryOrder upcase e e').isLE) ↔
              (∀ e ∈ ni.attrList.take ctx.listStart, (entryOrder upcase e x).isLE) ∧
              ∀ e ∈ ni.searched ctx, keyOrder upcase q.ic q.key e.key = .eq →
                (entryOrder upcase e x).isLE)) := by
  refine ⟨h.enumerates_iff, fun q ctx hq hmrec hstart =>
    ⟨fun f x hfirst hx hkey hvcn => ?_, fun hnone => ?_⟩⟩
  · exact h.findsExtent_iff h.hasList hq hmrec hstart hfirst hx hkey hvcn
  · exact h.toWellFormedList.insert_iff h.hasList hq hmrec hstart hnone

/-- The list of an inode without extent records. -/
lemma completeList_of_base (hlist : ni.hasAttrList = true)
    (hsorted : ni.attrList.Pairwise fun e e' => (entryOrder upcase e e').isLE)
    (hentries : ∀ e ∈ ni.attrList, e.mftNo = ni.base.mftNo ∧ e.seqNo = ni.base.seqNo ∧
      0 ≤ e.lowestVcn ∧ e.type ≠ atAttributeList ∧
      ∃ a ∈ ni.base.attrs, a.type = e.type ∧ a.name = e.name ∧ a.instanceNo = e.instanceNo)
    (hinst : (ni.base.attrs.map AttrView.instanceNo).Nodup)
    (hdistinct : (ni.attrList.map AttrListEntry.instanceNo).Nodup)
    (htypes : ni.base.attrs.Pairwise fun a b => a.type ≤ b.type)
    (hend : ∀ a ∈ ni.base.attrs, a.type < atEnd)
    (hown : ∃ a ∈ ni.base.attrs, a.type = atAttributeList)
    (hsingle : ∀ j < ni.base.attrs.length, (ni.base.attrs[j]?).map AttrView.type =
      some atAttributeList → j = ni.listIndex)
    (hcomplete : ∀ a ∈ ni.base.attrs, a.type ≠ atAttributeList →
      ∃ e ∈ ni.attrList, e.instanceNo = a.instanceNo) : CompleteList upcase ni := by
  have hrecordOf : ∀ e ∈ ni.attrList, ni.recordOf e = some ni.base :=
    fun e he => if_pos (hentries e he).1
  have hrecord : ∀ r, ni.IsRecord r → r = ni.base := by
    rintro r (rfl | ⟨e, he, hr⟩)
    · rfl
    · exact Option.some.inj (hr.symm.trans (hrecordOf e he))
  refine ⟨⟨hsorted, fun e he => (hentries e he).2.2.1, fun e he => ?_, fun e he r hr => ?_,
    fun e he e' he' _ => ?_⟩, hlist, fun e he => (hentries e he).2.2.2.1, hend, htypes, hown,
    fun r hr j a hget htype => ?_, ?_, fun r hr a ha htype => ?_⟩
  · obtain ⟨hno, hseq, -, -, a, ha, htype, hname, hinstance⟩ := hentries e he
    exact ⟨ni.base, hrecordOf e he, hno.symm, hseq.symm, a, ha, htype, hname, hinstance⟩
  · rw [hrecord r (.inr ⟨e, he, hr⟩)]
    exact hinst
  · rw [(hentries e he).2.1, (hentries e' he').2.1]
  · obtain rfl := hrecord r hr
    refine ⟨rfl, hsingle j (List.getElem?_eq_some_iff.mp hget).1 ?_⟩
    rw [hget, Option.map_some, htype]
  · refine List.Nodup.of_map Prod.snd ?_
    rwa [map_map]
  · obtain rfl := hrecord r hr
    obtain ⟨e, he, hinstance⟩ := hcomplete a ha htype
    exact ⟨e, he, hrecordOf e he, hinstance⟩

end

def listedFile : BaseInode where
  base := ⟨40, 1, [⟨0x10, [], 0, false, []⟩, ⟨0x20, [], 3, false, []⟩, ⟨0x30, [], 2, false, []⟩]⟩
  hasAttrList := true
  attrList := [⟨0x10, [], 0, 40, 1, 0⟩, ⟨0x30, [], 0, 40, 1, 2⟩]
  typeBehind := 0
  openExtent := fun _ _ => none

theorem attrLookup_list_listedFile :
    (∃ l, (∀ calls, l.length < calls →
        enumerateAttrs [] listedFile calls listedFile.searchCtx = (l, some .enoent)) ∧
      l.Nodup ∧ ∀ p, p ∈ l ↔ listedFile.IsAttr p) ∧
    FindsExtent [] ⟨0x30, .unnamed, .ignoreCase, 0, none⟩ listedFile listedFile.searchCtx
      (0x30, []) := by
  have hcomplete : CompleteList [] listedFile :=
    completeList_of_base rfl (by decide) (by decide) (by decide) (by decide) (by decide)
      (by decide) (by decide) (by decide) (by decide)
  obtain ⟨⟨l, hcalls, hiff⟩, hsearch⟩ := attrLookup_list [] listedFile hcomplete
  have hq : AttrQuery.ByName ⟨0x30, .unnamed, .ignoreCase, 0, none⟩ :=
    ⟨fun _ h => AttrName.noConfusion h, by decide, by decide, by decide, rfl⟩
  have hfinds := (hsearch _ listedFile.searchCtx hq (.inl rfl) (by decide)).1
    ⟨0x30, [], 0, 40, 1, 2⟩ ⟨0x30, [], 0, 40, 1, 2⟩ rfl (.tail _ (.head _)) rfl (by decide)
  exact ⟨⟨l, hcalls, hiff.mpr (.inl (by decide))⟩, hfinds.mpr fun hmisled => hmisled.1 rfl⟩

/-- A file of which only the times and the attribute list are left. -/
def strippedFile : BaseInode where
  base := ⟨40, 1, [⟨0x10, [], 0, false, []⟩, ⟨0x20, [], 3, false, []⟩]⟩
  hasAttrList := true
  attrList := [⟨0x10, [], 0, 40, 1, 0⟩]
  typeBehind := 0
  openExtent := fun _ _ => none

/-- With zeros behind the list, the enumeration leaves the list itself out. -/
theorem enumerate_strippedFile :
    CompleteList [] strippedFile ∧
      enumerateAttrs [] strippedFile 3 strippedFile.searchCtx = ([(40, 0)], some .enoent) ∧
      strippedFile.IsAttr (40, 1) ∧ strippedFile.listPos = (40, 1) := by
  refine ⟨?_, by decide +kernel, ⟨strippedFile.base, .inl rfl, rfl, by decide⟩, by decide⟩
  exact completeList_of_base rfl (by decide) (by decide) (by decide) (by decide) (by decide)
    (by decide) (by decide) (by decide) (by decide)

end NtfsDxe
