import NtfsDxe.Attr.ListSearch

/-! # Opening a stream

`CASE_SENSITIVE` is defined as `true` and `IGNORE_CASE` as `false`. The functions that pass a
literal 0 for the mode of comparison therefore ignore the case of the name, and take the first
attribute whose name matches in this mode.
-/

namespace NtfsDxe

open Foundation SortedSplit List BaseInode

/-! ## Lookups -/

/-- The mode of an argument of type `IGNORE_CASE_BOOL`. -/
def CaseMode.ofBool (ic : Bool) : CaseMode := if ic then .caseSensitive else .ignoreCase

/-- The calls of `ntfs_attr_lookup` by which a stream is opened, read, written and resized. -/
inductive StreamLookup where
  | attrOpen
  | mapRunlist
  | mapPartialRunlist
  | mapWholeRunlist
  | attrPread
  | attrPwriteSizes
  | attrPwriteResident
  | attrPwriteRestore
  | residentAttrResize
  | residentAttrResizeMoved
  | updateMappingPairs
  | nonResidentAttrShrink
  | nonResidentAttrExpand

namespace StreamLookup

/-- The argument `ic`: the literal 0 is `false`. -/
def ic : StreamLookup → Bool
  | attrOpen | attrPread | attrPwriteSizes | attrPwriteResident | attrPwriteRestore
  | residentAttrResize => false
  | mapRunlist | mapPartialRunlist | mapWholeRunlist | residentAttrResizeMoved
  | updateMappingPairs | nonResidentAttrShrink | nonResidentAttrExpand => true

def byVcn : StreamLookup → Bool
  | mapRunlist | mapPartialRunlist | mapWholeRunlist | updateMappingPairs => true
  | _ => false

def query (site : StreamLookup) (type : Nat) (name : AttrName) (vcn : Int) : AttrQuery :=
  ⟨type, name, .ofBool site.ic, if site.byVcn then vcn else 0, none⟩

end StreamLookup

/-! ## Inodes with streams -/

/-- The keys of the attributes of an inode, in the order in which they are searched. -/
def BaseInode.keys (ni : BaseInode) : List (Nat × Name) :=
  if ni.hasAttrList then ni.attrList.map AttrListEntry.key
  else ni.base.attrs.map fun a => (a.type, a.name)

/-- The attributes are in order; an attribute list is well-formed, and without zeros in its
names. -/
structure Searchable (upcase : List UInt16) (ni : BaseInode) : Prop where
  record : ni.hasAttrList = false → ni.base.attrs.Pairwise fun a b =>
    (keyOrder upcase .caseSensitive (a.type, a.name) (b.type, b.name)).isLE
  list : ni.hasAttrList = true → WellFormedList upcase ni ∧ ∀ e ∈ ni.attrList, ∀ c ∈ e.name, c ≠ 0

def FindsKey (upcase : List UInt16) (ni : BaseInode) (q : AttrQuery) (key : Nat × Name) : Prop :=
  ∃ ctx' a, attrLookup upcase q ni ni.searchCtx = (ctx', .ok ()) ∧
    ctx'.mrec.attrs[ctx'.attr]? = some a ∧ (a.type, a.name) = key

section

variable {upcase : List UInt16} {ni : BaseInode} {q : AttrQuery}

lemma FindsKey.unique (h : FindsKey upcase ni q key)
    (h' : FindsKey upcase ni q key') : key = key' := by
  obtain ⟨ctx, a, hrun, hget, rfl⟩ := h
  obtain ⟨ctx', a', hrun', hget', rfl⟩ := h'
  obtain rfl : ctx = ctx' := (Prod.mk.inj (hrun.symm.trans hrun')).1
  obtain rfl : a = a' := Option.some.inj (hget.symm.trans hget')
  rfl

/-- The search ends at the first of the keys that match in the mode. -/
structure FindsFirst (upcase : List UInt16) (ni : BaseInode) (q : AttrQuery) (key : Nat × Name) :
    Prop where
  mem : key ∈ ni.keys
  finds : FindsKey upcase ni q key
  fits : keyOrder upcase q.ic q.key key = .eq
  first : ∀ x ∈ ni.keys, keyOrder upcase q.ic q.key x = .eq →
    (keyOrder upcase .caseSensitive key x).isLE

section

variable (h : Searchable upcase ni) (hq : q.ByName) (hx : x ∈ ni.keys)
  (hmatch : keyOrder upcase q.ic q.key x = .eq)
include h hq hx hmatch

lemma Searchable.finds_in_record (hlist : ni.hasAttrList = false) :
    ∃ key, FindsFirst upcase ni q key := by
  have hkeys : ni.keys = ni.base.attrs.map fun a => (a.type, a.name) := by
    rw [BaseInode.keys, hlist, if_neg Bool.false_ne_true]
  have hsorted := h.record hlist
  have hmode := hsorted.imp fun {a b} hle => keyOrder_isLE q.ic hle
  obtain ⟨before, same, after, hsplit⟩ := (descends_of_sorted hmode q.key).exists_split
  rw [hkeys] at hx
  obtain ⟨b, hb, rfl⟩ := mem_map.mp hx
  have hbsame := hsplit.mem_same hb hmatch
  cases same with
  | nil => cases hbsame
  | cons a same =>
    have hfits := hsplit.same_eq a mem_cons_self
    have hpass : ∀ x ∈ before, q.attrStep upcase x = .next := by
      intro x hx
      have hgt := hsplit.before_gt x hx
      rw [AttrQuery.attrStep_eq hq.named hq.unused, hgt]
      rfl
    have hstop : q.attrStep upcase a = .found := by
      rw [AttrQuery.attrStep_eq hq.named hq.unused, hfits, stepOf, AttrQuery.valueStep, hq.val]
    have hloop : attrFindLoop upcase q ni.base.attrs 0 = (before.length, .ok ()) := by
      rw [hsplit.eq, attrFindLoop_append hpass, cons_append, attrFindLoop, hstop, zero_add]
    refine ⟨(a.type, a.name), ?_, ⟨⟨ni.base, before.length, false, none, none⟩, a, ?_, ?_, rfl⟩,
      hfits, ?_⟩
    · rw [hkeys, hsplit.eq]
      exact mem_map.mpr ⟨a, mem_append_right _ mem_cons_self, rfl⟩
    · have hstart : ni.searchCtx.start = 0 := rfl
      rw [attrLookup, if_pos (.inl (by rw [hlist]; rfl)), SearchCtx.attrFind, hstart,
        if_neg (Nat.not_lt_zero _), drop_zero, searchCtx]
      rw [hloop]
    · rw [hsplit.eq, List.getElem?_append_right (le_refl _), Nat.sub_self]
      rfl
    · intro y hy hyeq
      rw [hkeys] at hy
      obtain ⟨b, hb, rfl⟩ := mem_map.mp hy
      rcases mem_cons.mp (hsplit.mem_same hb hyeq) with rfl | hmem
      · rw [keyOrder_eq_iff.mpr rfl]
        rfl
      · rw [hsplit.eq, pairwise_append, cons_append, pairwise_cons] at hsorted
        exact hsorted.2.1.1 b (mem_append_left after hmem)

lemma Searchable.finds_in_list (hlist : ni.hasAttrList = true) :
    ∃ key, FindsFirst upcase ni q key := by
  have hkeys : ni.keys = ni.attrList.map AttrListEntry.key := by
    rw [BaseInode.keys, hlist, if_pos rfl]
  obtain ⟨hwf, hzero⟩ := h.list hlist
  have hsorted := hwf.sorted_keys .caseSensitive 0
  obtain ⟨before, same, after, hsplit⟩ :=
    (descends_of_sorted (hwf.sorted_keys q.ic 0) q.key).exists_split
  have hlisted : ∀ y ∈ same, y ∈ ni.attrList := by
    intro y hy
    rw [← @List.drop_zero _ ni.attrList, hsplit.eq]
    exact mem_append_right _ (mem_append_left _ hy)
  rw [hkeys] at hx
  obtain ⟨b, hb, rfl⟩ := mem_map.mp hx
  have hbsame := hsplit.mem_same hb hmatch
  obtain ⟨ctx', s1, e, s2, hrun, hstands, hsame, hsamekey⟩ :=
    @WellFormedList.lookup_found ni q ni.searchCtx hlist hq upcase hwf (.inl rfl)
      (Nat.zero_le _) before same after hsplit (fun y hy => hzero y (hlisted y hy))
      (ne_nil_of_mem hbsame)
  have he : e ∈ same := by
    rw [hsame]
    exact mem_append_right _ mem_cons_self
  obtain ⟨a, hget, hattr⟩ := hstands.found
  refine ⟨e.key, ?_, ⟨ctx', a, hrun, hget, ?_⟩, hsplit.same_eq e he, ?_⟩
  · rw [hkeys]
    exact mem_map_of_mem (hlisted e he)
  · rw [hattr.type, hattr.name]
    rfl
  · intro y hy hyeq
    rw [hkeys] at hy
    obtain ⟨b, hb, rfl⟩ := mem_map.mp hy
    have hmem := hsplit.mem_same hb hyeq
    have hself : (keyOrder upcase .caseSensitive e.key e.key).isLE := by
      rw [keyOrder_eq_iff.mpr rfl]
      rfl
    rw [hsame] at hmem
    rcases mem_append.mp hmem with hmem | hmem
    · rw [hsamekey b hmem]
      exact hself
    · rcases mem_cons.mp hmem with rfl | hmem
      · exact hself
      · rw [hsplit.eq, hsame, append_assoc, ← append_assoc, pairwise_append,
          cons_append, pairwise_cons] at hsorted
        exact hsorted.2.1.1 b (mem_append_left after hmem)

lemma Searchable.finds_first : ∃ key, FindsFirst upcase ni q key := by
  cases hlist : ni.hasAttrList with
  | false => exact h.finds_in_record hq hx hmatch hlist
  | true => exact h.finds_in_list hq hx hmatch hlist

end

/-! ## The stream that is found -/

/-- No name of the type differs from the given one by case only and is ordered before it. -/
def FirstOfCase (upcase : List UInt16) (ni : BaseInode) (type : Nat) (name : Name) : Prop :=
  ∀ other, (type, other) ∈ ni.keys → upperOrder upcase name other = .eq →
    nameOrder upcase other name ≠ .lt

lemma keyOrder_same_type :
    keyOrder upcase ic (type, name) (type, other) = ic.order upcase name other := by
  rw [keyOrder, Nat.compare_eq_eq.mpr rfl, Ordering.eq_then]

lemma type_of_keyOrder_eq (h : keyOrder upcase ic x y = .eq) : x.1 = y.1 := by
  rw [keyOrder, Ordering.then_eq_eq, Nat.compare_eq_eq] at h
  exact h.1

lemma keyOrder_refl : keyOrder upcase ic x x = .eq :=
  Std.ReflCmp.compare_self

lemma Searchable.finds_caseSensitive (h : Searchable upcase ni) (hq : q.ByName)
    (hic : q.ic = .caseSensitive) (hpresent : q.key ∈ ni.keys) : FindsKey upcase ni q q.key := by
  obtain ⟨key, hfirst⟩ := h.finds_first hq hpresent keyOrder_refl
  have hfits := hfirst.fits
  rw [hic, keyOrder_eq_iff] at hfits
  rw [hfits]
  exact hfirst.finds

/-- Ignoring the case, it does so if no other spelling is ordered before the name. -/
lemma Searchable.finds_ignoreCase_iff (h : Searchable upcase ni) (hq : q.ByName)
    (hic : q.ic = .ignoreCase) (hpresent : q.key ∈ ni.keys) :
    FindsKey upcase ni q q.key ↔ FirstOfCase upcase ni q.type q.name.chars := by
  obtain ⟨key, hfirst⟩ := h.finds_first hq hpresent keyOrder_refl
  have hfits := hfirst.fits
  rw [hic] at hfits
  constructor
  · intro hfinds other hother hcase hlt
    obtain rfl := hfirst.finds.unique hfinds
    have hmatch : keyOrder upcase q.ic q.key (q.type, other) = .eq := by
      rw [hic, AttrQuery.key, keyOrder_same_type]
      exact hcase
    have hle := hfirst.first _ hother hmatch
    rw [AttrQuery.key, keyOrder_same_type] at hle
    change (nameOrder upcase q.name.chars other).isLE at hle
    rw [Std.OrientedCmp.gt_of_lt hlt] at hle
    cases hle
  · intro hnone
    have hle := hfirst.first _ hpresent keyOrder_refl
    have heq : keyOrder upcase .caseSensitive key q.key = .eq := by
      obtain ⟨type, other⟩ := key
      obtain rfl : q.type = type := type_of_keyOrder_eq hfits
      rw [AttrQuery.key, keyOrder_same_type] at hfits hle ⊢
      have hnot := hnone other hfirst.mem hfits
      cases hcmp : CaseMode.caseSensitive.order upcase other q.name.chars with
      | lt => exact absurd hcmp hnot
      | eq => rfl
      | gt => rw [hcmp] at hle; cases hle
    rw [← keyOrder_eq_iff.mp heq]
    exact hfirst.finds

lemma query_byName (hnamed : ∀ n, name ≠ .null n)
    (hunused : type ≠ atUnused) (hlist : type ≠ atAttributeList) (hend : type ≠ atEnd)
    (site : StreamLookup) (vcn : Int) : (site.query type name vcn).ByName :=
  ⟨hnamed, hunused, hlist, hend, rfl⟩

/-- Each lookup on behalf of a stream ends at the attribute with exactly its name if and only if
no other spelling of the name is ordered before it. The lookups that pass `CASE_SENSITIVE` do so
in any case. -/
theorem streamLookups_exact_iff (upcase : List UInt16) (ni : BaseInode)
    (h : Searchable upcase ni) (type : Nat) (name : AttrName) (hnamed : ∀ n, name ≠ .null n)
    (hunused : type ≠ atUnused) (hlist : type ≠ atAttributeList) (hend : type ≠ atEnd)
    (hpresent : (type, name.chars) ∈ ni.keys) :
    ((∀ (site : StreamLookup) (vcn : Int),
        FindsKey upcase ni (site.query type name vcn) (type, name.chars)) ↔
      FirstOfCase upcase ni type name.chars) ∧
    ∀ (site : StreamLookup) (vcn : Int), site.ic = true →
      FindsKey upcase ni (site.query type name vcn) (type, name.chars) := by
  have hquery := query_byName hnamed hunused hlist hend
  have hsensitive : ∀ (site : StreamLookup) (vcn : Int), site.ic = true →
      FindsKey upcase ni (site.query type name vcn) (type, name.chars) := by
    intro site vcn hic
    refine h.finds_caseSensitive (hquery site vcn) ?_ hpresent
    rw [StreamLookup.query, hic]
    rfl
  have hignore : ∀ (site : StreamLookup) (vcn : Int), site.ic = false →
      (FindsKey upcase ni (site.query type name vcn) (type, name.chars) ↔
        FirstOfCase upcase ni type name.chars) := by
    intro site vcn hic
    refine h.finds_ignoreCase_iff (hquery site vcn) ?_ hpresent
    rw [StreamLookup.query, hic]
    rfl
  refine ⟨⟨fun hall => (hignore .attrOpen 0 rfl).mp (hall .attrOpen 0), ?_⟩, hsensitive⟩
  intro hfirst site vcn
  cases hic : site.ic with
  | true => exact hsensitive site vcn hic
  | false => exact (hignore site vcn hic).mpr hfirst

end

/-! ## Two spellings of a name -/

/-- A table that maps the small letters of ascii to the capital ones. -/
def asciiUpcase : List UInt16 :=
  (List.range 128).map fun c => UInt16.ofNat (if 97 ≤ c ∧ c ≤ 122 then c - 32 else c)

/-- A file with the streams `A` and `a`. -/
def twoSpellings : BaseInode :=
  ⟨⟨64, 1, [⟨0x80, [65], 1, false, [1]⟩, ⟨0x80, [97], 2, false, [2]⟩]⟩, false, [], 0,
    fun _ _ => none⟩

lemma twoSpellings_searchable : Searchable asciiUpcase twoSpellings :=
  ⟨fun _ => by decide +kernel, fun h => by cases h⟩

/-- The capital letter is ordered first. -/
lemma twoSpellings_firstOfCase : FirstOfCase asciiUpcase twoSpellings 0x80 [65] := by
  intro other hother hcase
  have hnames : other = [65] ∨ other = [97] := by
    simpa [twoSpellings, BaseInode.keys] using hother
  rcases hnames with rfl | rfl
  · decide +kernel
  · decide +kernel

theorem streamLookups_exact_capital :
    Searchable asciiUpcase twoSpellings ∧ ∀ (site : StreamLookup) (vcn : Int),
      FindsKey asciiUpcase twoSpellings (site.query 0x80 (.other [65]) vcn) (0x80, [65]) :=
  ⟨twoSpellings_searchable,
    (streamLookups_exact_iff asciiUpcase twoSpellings twoSpellings_searchable 0x80 (.other [65])
      (fun n h => by cases h) (by decide) (by decide) (by decide) (by decide)).1.mpr
      twoSpellings_firstOfCase⟩

/-- The stream `a` is there, and its runlist is mapped as that of `a`; but it is opened, read
and written as `A`. -/
theorem streamLookups_other_spelling :
    Searchable asciiUpcase twoSpellings ∧ (0x80, [97]) ∈ twoSpellings.keys ∧
    FindsKey asciiUpcase twoSpellings (StreamLookup.mapRunlist.query 0x80 (.other [97]) 0)
      (0x80, [97]) ∧
    ∀ site ∈ [StreamLookup.attrOpen, .attrPread, .attrPwriteResident, .residentAttrResize],
      FindsKey asciiUpcase twoSpellings (site.query 0x80 (.other [97]) 0) (0x80, [65]) ∧
      ¬ FindsKey asciiUpcase twoSpellings (site.query 0x80 (.other [97]) 0) (0x80, [97]) := by
  refine ⟨twoSpellings_searchable, by decide, ?_, ?_⟩
  · exact ⟨⟨twoSpellings.base, 1, false, none, none⟩, ⟨0x80, [97], 2, false, [2]⟩,
      by decide +kernel, by decide, rfl⟩
  · intro site hsite
    have hic : site.query 0x80 (.other [97]) 0 = ⟨0x80, .other [97], .ignoreCase, 0, none⟩ := by
      simp only [mem_cons, not_mem_nil, or_false] at hsite
      rcases hsite with rfl | rfl | rfl | rfl <;> rfl
    have hfinds : FindsKey asciiUpcase twoSpellings (site.query 0x80 (.other [97]) 0)
        (0x80, [65]) := by
      rw [hic]
      exact ⟨⟨twoSpellings.base, 0, false, none, none⟩, ⟨0x80, [65], 1, false, [1]⟩,
        by decide +kernel, by decide, rfl⟩
    refine ⟨hfinds, fun hother => ?_⟩
    cases hfinds.unique hother

end NtfsDxe
