import NtfsDxe.Index.Split
import Mathlib.Data.List.Sort

/-! # Adding an entry to an index

`ntfs_ie_add` repeats the lookup until there is room at the place of the new entry.
Each attempt leaves a tree with the same entries in the same order, so that the
attempt which succeeds adds the new entry to the old ones. What the code passes over on the
way, a bit that is not cleared or a changed block that is not written, is in the trace of the
requests that were refused.
-/

namespace NtfsDxe

open Foundation ItemTree Prog List Items

variable {K P : Type} [LinearOrder K] {env : IndexEnv K}

def withRecord (x : Record K P) (es : List (Record K P)) : List (Record K P) :=
  es.orderedInsert (fun a b => a.key ≤ b.key) x

/-- The entries that are smaller than the new one come before it. -/
lemma withRecord_append {pre post : List (Record K P)}
    (hpre : ∀ y ∈ pre, y.key < x.key) (hpost : ∀ y ∈ post, x.key < y.key) :
    withRecord x (pre ++ post) = pre ++ x :: post := by
  unfold withRecord
  induction pre with
  | nil =>
    cases post with
    | nil => rfl
    | cons y post => exact orderedInsert_cons_of_le _ _ (le_of_lt (hpost y mem_cons_self))
  | cons y pre ih =>
    have hy : ¬ x.key ≤ y.key := not_le_of_gt (hpre y mem_cons_self)
    rw [cons_append, orderedInsert_cons, if_neg hy, ih fun z hz => hpre z (mem_cons_of_mem _ hz)]
    rfl

/-! ## The place of a new entry -/

section Place

variable {t s : IndexTree K P}

/-- The leaf in which the lookup ends, with the new entry. -/
lemma Located.inorder_insert (h : Located t icx x.key lo false p s pos) (hord : Ordered t.inorder) :
    (replaceAt p (insertAt x pos s) t).inorder = withRecord x t.inorder := by
  obtain ⟨hleaf, hsearch⟩ := h.notFound rfl
  obtain ⟨pre, post, hold, hnew, hpre, hpost⟩ := h.place.around
  obtain ⟨hbefore, hafter⟩ := search_leaf hleaf (h.place.ordered hord) hsearch
  have hparts : t.inorder =
      (pre ++ s.inorder.take pos) ++ (s.inorder.drop pos ++ post) := by
    rw [append_assoc, ← append_assoc (s.inorder.take pos), take_append_drop, ← append_assoc, hold]
  rw [hparts, hnew, inorder_insertAt hleaf, withRecord_append
    (fun y hy => (mem_append.mp hy).elim (hpre y) (hbefore y))
    (fun y hy => (mem_append.mp hy).elim (hafter y) (hpost y))]
  simp

/-- A lookup that does not find the key shows that there is none. -/
lemma Located.key_not_mem (h : Located t icx key lo false p s pos)
    (hord : Ordered t.inorder) : key ∉ t.inorder.map Record.key := by
  obtain ⟨hleaf, hsearch⟩ := h.notFound rfl
  obtain ⟨pre, post, hold, -, hpre, hpost⟩ := h.place.around
  obtain ⟨hbefore, hafter⟩ := search_leaf hleaf (h.place.ordered hord) hsearch
  intro hmem
  obtain ⟨y, hy, rfl⟩ := mem_map.mp hmem
  rw [hold, ← take_append_drop pos s.inorder] at hy
  rcases mem_append.mp hy with hy | hy
  · rcases mem_append.mp hy with hy | hy
    · exact lt_irrefl _ (hpre y hy)
    · exact (mem_append.mp hy).elim (fun hy => lt_irrefl _ (hbefore y hy))
        fun hy => lt_irrefl _ (hafter y hy)
  · exact lt_irrefl _ (hpost y hy)

omit [LinearOrder K] in
lemma size_insert (node : IndexNode K P) (e : IndexEntry K P) :
    (node.insert pos e).size env = node.size env + entryLength env e := by
  have hparts := entriesLength_append env (node.entries.take pos) (node.entries.drop pos)
  rw [take_append_drop] at hparts
  unfold IndexNode.size IndexNode.insert
  rw [entriesLength_append, entriesLength]
  dsimp only
  omega

omit [LinearOrder K] in
lemma nodeOf_insertAt (hleaf : s.Uniform false) :
    nodeOf (insertAt x pos s).shape = (nodeOf s.shape).insert pos ⟨x, none⟩ := by
  have hnone : ∀ {u : IndexTree K P}, u.Uniform false → u.lastRef = none := fun hu =>
    Option.not_isSome_iff_eq_none.mp (by rw [hu.lastRef_isSome]; exact Bool.false_ne_true)
  simp only [nodeOf, shape, IndexNode.insert, entries_insertAt hleaf,
    hnone hleaf, hnone (uniform_insertAt hleaf)]

end Place

/-! ## Storing the new entry -/

section Store

omit [LinearOrder K] in
lemma Holds.insertRoot (h : Holds env index extra t) (pos : Nat) (hleaf : t.Uniform false)
    (hroom : index.root.rootLength env + entryLength env (⟨x,
      none⟩ : IndexEntry K P) ≤ index.rootAllocated) :
    Holds env { index with root := index.root.insert pos ⟨x, none⟩ } extra
      (replaceAt none (insertAt x pos t) t) := by
  have hleaf' : (insertAt x pos t).Uniform false := uniform_insertAt hleaf
  refine h.replace (p := none) rfl ?_ ?_ ?_ (fun _ _ _ => rfl) ?_ rfl ⟨false, hleaf'⟩
  · rw [replaceAt, nodeOf_insertAt hleaf, h.root]
  · unfold IndexNode.rootLength at hroom ⊢
    rw [size_insert]
    dsimp only
    omega
  · rw [hleaf'.leaf_stored]
    exact fun q hq => by cases hq
  · rw [refs_eq_stored, refs_eq_stored t, hleaf'.leaf_stored, hleaf.leaf_stored]

omit [LinearOrder K] in
lemma Holds.insertBlock (h : Holds env index extra t) (pos : Nat) (hs : t.NodeAt (some v) s)
    (hleaf : s.Uniform false) (hroom : (nodeOf s.shape).blockLength env + entryLength env (⟨x,
      none⟩ : IndexEntry K P) ≤ blockAllocated env) :
    Holds env
      { index with
        blocks := Function.update index.blocks v (some ((nodeOf s.shape).insert pos ⟨x, none⟩)) }
      extra (replaceAt (some v) (insertAt x pos s) t) := by
  have hleaf' : (insertAt x pos s).Uniform false := uniform_insertAt hleaf
  refine h.replace hs ?_ h.rootFits ?_ (fun u hu _ => ?_) ?_ rfl ⟨false, hleaf'⟩
  · rw [replaceAt, shape_setNode, h.root]
  · rw [hleaf'.leaf_stored, append_nil]
    intro q hq
    cases mem_singleton.mp hq
    dsimp only
    rw [Function.update_self, nodeOf_insertAt hleaf]
    refine ⟨rfl, ?_⟩
    unfold IndexNode.blockLength at hroom ⊢
    rw [size_insert]
    omega
  · refine Function.update_of_ne ?_ _ _
    rintro rfl
    exact hu (by simp [self])
  · rw [refs_eq_stored, refs_eq_stored s, hleaf'.leaf_stored, hleaf.leaf_stored]

end Store

/-! ## The attempts -/

/-- No leaf below the root is empty, except the only leaf of an empty index whose
root was just moved to a block. -/
def Ready (t : IndexTree K P) : Prop := t.Filled ∨ ∃ v, t = lastChild v last

omit [LinearOrder K] in
lemma Ready.filled_replaceAt (ht : Ready t) (hnodup : t.refs.Nodup) (hs : t.NodeAt p s)
    (hleaf : s.Uniform false) (hleaf' : s'.Uniform false) (hne : s'.entries ≠ []) :
    (replaceAt p s' t).Filled := by
  intro q hq
  rcases mem_stored_replaceAt hnodup hs hq with hin | ⟨hin, hnot⟩
  · rw [hleaf'.leaf_stored, append_nil] at hin
    cases p with
    | none => cases hin
    | some v =>
      cases mem_singleton.mp hin
      exact fun heq => hne (congrArg Prod.fst heq)
  · rcases ht with hfilled | ⟨v, rfl⟩
    · exact hfilled q hin
    · -- the only block is the one that is exchanged
      cases mem_singleton.mp hin
      cases p with
      | none =>
        cases hs
        cases hleaf.1
      | some u =>
        have hu : (u, s) = (v, last) := mem_singleton.mp hs
        cases hu
        exact absurd (by simp [self]) hnot

omit [LinearOrder K] in
/-- A tree in which a block has entries has no empty leaf. -/
lemma Ready.filled_of_entries (ht : Ready t) (hs : t.NodeAt (some v) s)
    (hthree : 3 ≤ s.entries.length) : t.Filled := by
  rcases ht with hfilled | ⟨u, rfl⟩
  · exact hfilled
  · have hv : (v, s) = (u, last) := mem_singleton.mp hs
    cases hv
    exact absurd hthree (Nat.not_succ_le_zero 2)

section Attempts

variable {w : IndexWorld K P}

omit [LinearOrder K] in
/-- Releasing a context with nothing to write. -/
lemma indexCtxFree_clean (hclean : w.icx.ibDirty = false) :
    wp (indexCtxFree env) (fun _ w' => w'.index = w.index ∧ w'.icx.ibDirty = false ∧
      w'.icx.pindex = w.icx.pindex ∧ w'.refused = w.refused) E w := by
  simp only [indexCtxFree, wp_bind, wp_reads, wp_ite, wp_modify, wp_pure, hclean,
    Bool.false_eq_true, if_false]
  split
  · split <;> simp [hclean]
  · simp

omit [LinearOrder K] in
/-- Releasing a context writes the block that was changed, unless this is refused. -/
lemma indexCtxFree_dirty (hentry : w.icx.hasEntry = true) (hblock : w.icx.isInRoot = false)
    (hdirty : w.icx.ibDirty = true) (hopen : w.icx.held .iaNa = .opened) :
    wp (indexCtxFree env)
      (fun _ w' => w'.index = (w.putBlock w.icx.ib.1 w.icx.ib.2).index ∧ w'.refused = w.refused ∨
        w'.index = w.index ∧ w'.refused = .write false :: w.refused) E w := by
  have hopen' : (w.release .actx).icx.held .iaNa = .opened :=
    (w.release_held .actx (by decide)).trans hopen
  simp only [indexCtxFree, wp_bind, wp_reads, wp_modify, wp_attempt, if_pos hentry,
    if_pos hblock, if_pos hdirty]
  refine wp_ibWrite (fun _ _ => .inr ?_) (fun hclosed => absurd hopen' hclosed)
    fun _ _ => .inl ?_
  · simp [IndexWorld.refuse]
  · simp [IndexWorld.putBlock, IndexWorld.tick]

/-- What is in the index when the context was released: the new entry, unless the
block in which it is was not written. -/
def AddStored (env : IndexEnv K) (t : IndexTree K P) (x : Record K P) (w' : IndexWorld K P) :
    Prop :=
  ∃ leaked t', Holds env w'.index leaked t' ∧
    (t'.Filled ∧ t'.inorder = withRecord x t.inorder ∧ w'.refused = leaks leaked ∨
      t'.inorder = t.inorder ∧ w'.refused = .write false :: leaks leaked)

/-- What is known after `ntfs_ie_add`, before the context is released. -/
def AddDone (env : IndexEnv K) (t : IndexTree K P) (x : Record K P) (w' : IndexWorld K P) : Prop :=
  x.key ∉ t.inorder.map Record.key ∧
    wp (indexCtxFree env) (fun _ w'' => AddStored env t x w'') (fun _ _ => False) w'

/-- The entry is inserted where the lookup ended. It is stored at the latest when the
context is released. -/
lemma insertAtEntry_spec (h : Leaky env w [] t) (hord : Ordered t.inorder) (hready : Ready t)
    (hloc : Located t w.icx x.key lo false p s pos) (hclean : w.icx.ibDirty = false)
    (hroot : p = none →
      w.index.root.rootLength env + entryLength env (⟨x, none⟩ : IndexEntry K P) ≤
        w.index.rootAllocated)
    (hblock : p.isSome = true → (nodeOf s.shape).blockLength env +
      entryLength env (⟨x, none⟩ : IndexEntry K P) ≤ blockAllocated env) :
    wp (insertAtEntry (⟨x, none⟩ : IndexEntry K P)) (fun _ w' => AddDone env t x w') E w := by
  obtain ⟨leaked, h, hleaked⟩ := h
  rw [append_nil] at h
  obtain ⟨hleaf, -⟩ := hloc.notFound rfl
  have hfilled : (replaceAt p (insertAt x pos s) t).Filled := by
    refine hready.filled_replaceAt h.refs_nodup hloc.place.node hleaf
      (uniform_insertAt hleaf) ?_
    rw [entries_insertAt hleaf]
    simp
  have hinorder := hloc.inorder_insert hord
  simp only [insertAtEntry, wp_bind, wp_reads, wp_ite, wp_modifyIcx, hloc.entry]
  cases p with
  | none =>
    have hst : s = t := hloc.place.node
    subst hst
    rw [hloc.inRoot, Option.isNone_none]
    have hstored := h.insertRoot pos hleaf (hroot rfl)
    refine ⟨hloc.key_not_mem hord, wp_mono (indexCtxFree_clean hclean) (fun _ w' h' => ?_)
      fun _ _ h => h⟩
    refine ⟨leaked, _, ?_, .inl ⟨hfilled, hinorder, h'.2.2.2.trans hleaked⟩⟩
    rw [h'.1]
    exact hstored
  | some v =>
    rw [hloc.inRoot, hloc.ib v rfl]
    have hstored := h.insertBlock pos hloc.place.node hleaf (hblock rfl)
    refine ⟨hloc.key_not_mem hord, wp_mono
      (indexCtxFree_dirty hloc.hasEntry rfl rfl (hloc.opened rfl)) (fun _ w' h' => ?_)
      fun _ _ h => h⟩
    rcases h' with ⟨hindex, hrefused⟩ | ⟨hindex, hrefused⟩
    · refine ⟨leaked, _, ?_, .inl ⟨hfilled, hinorder, hrefused.trans hleaked⟩⟩
      rw [hindex]
      exact hstored
    · refine ⟨leaked, t, ?_, .inr ⟨rfl, hrefused.trans (congrArg _ hleaked)⟩⟩
      rw [hindex]
      exact h

/-- Another attempt, in a tree with the same entries. -/
lemma retry_spec (hagain : ∀ w : IndexWorld K P, Leaky env w [] t' → w.icx.ibDirty = false →
      wp again (fun _ w' => AddDone env t' x w') (fun _ _ => True) w)
    (h : Leaky env w [] t') (hinorder : t'.inorder = t.inorder) (hclean : w.icx.ibDirty = false) :
    wp (do indexCtxFree env; again) (fun _ w' => AddDone env t x w') (fun _ _ => True) w := by
  obtain ⟨leaked, hholds, hleaked⟩ := h
  refine wp_then (indexCtxFree_clean (E := fun _ _ => True) hclean) fun _ w1 h1 => ?_
  refine wp_mono (hagain w1 ⟨leaked, h1.1 ▸ hholds, h1.2.2.2.trans hleaked⟩ h1.2.1)
    (fun _ w2 h2 => ?_) fun _ _ _ => trivial
  rw [AddDone, hinorder] at h2
  refine ⟨h2.1, wp_mono h2.2 (fun _ w3 h3 => ?_) fun _ _ h => h⟩
  rw [AddStored, hinorder] at h3
  exact h3

/-- `ntfs_ie_add` of an entry without a subnode. -/
lemma ieAdd_spec (hblock : 4096 ≤ env.blockSize) (hnames : ShortNames env) {fuel : Nat}
    (h : Leaky env w [] t) (hord : Ordered t.inorder) (hready : Ready t)
    (hclean : w.icx.ibDirty = false) :
    wp (ieAdd env fuel ⟨x, none⟩) (fun _ w' => AddDone env t x w') (fun _ _ => True) w := by
  induction fuel generalizing w t with
  | zero => trivial
  | succ fuel ih =>
    have hagain : ∀ t' : IndexTree K P, t'.inorder = t.inorder → Ready t' →
        ∀ w' : IndexWorld K P, Leaky env w' [] t' → w'.icx.ibDirty = false →
        wp (ieAdd env fuel ⟨x, none⟩) (fun _ w'' => AddDone env t' x w'') (fun _ _ => True) w' :=
      fun t' hsame hready' w' hleaky hclean' => ih hleaky (hsame.symm ▸ hord) hready' hclean'
    obtain ⟨leaked, h, hleaked⟩ := h
    rw [ieAdd]
    refine wp_then (indexLookup_spec h.storesTree hord) fun found w1 hlook => ?_
    obtain ⟨p, s, pos, hloc⟩ := hlook.located
    have h1 : Holds env w1.index (leaked ++ []) t := hlook.index ▸ h
    have hleaked1 : w1.refused = leaks leaked := hlook.refused.trans hleaked
    have hleaky1 : Leaky env w1 [] t := ⟨leaked, h1, hleaked1⟩
    have hclean1 := hlook.dirty.trans hclean
    cases found with
    | true => trivial
    | false =>
      obtain ⟨hleaf, -⟩ := hloc.notFound rfl
      simp only [Bool.false_eq_true, if_false, wp_bind, wp_reads, id, hloc.inRoot]
      cases p with
      | none =>
        have hst : s = t := hloc.place.node
        subst hst
        simp only [Option.isNone_none, if_true]
        split
        · next hroom =>
            exact insertAtEntry_spec hleaky1 hord hready hloc hclean1 (fun _ => hroom)
              fun hsome => by cases hsome
        · refine wp_then (irMakeSpace_spec h1) fun r w2 h2 => ?_
          cases r with
          | ok =>
            refine retry_spec (hagain s rfl hready) ⟨leaked, ?_, h2.2.2.trans hleaked1⟩ rfl
              (h2.2.1 ▸ hclean1)
            rw [h2.1]
            exact h1.resize (Nat.le_add_right _ _)
          | keepSearching =>
            obtain ⟨⟨v, hv⟩, hdirty2, hrefused2⟩ := h2
            refine retry_spec (hagain (lastChild v s) rfl ?_)
              ⟨leaked, hv, hrefused2.trans hleaked1⟩ rfl (hdirty2.trans hclean1)
            by_cases hlast : s = last
            · exact .inr ⟨v, by rw [hlast]⟩
            · refine .inl (Items.Filled.lastChild (fun q hq => ?_) hlast v)
              rw [hleaf.leaf_stored] at hq
              cases hq
      | some v =>
        simp only [Option.isNone_some, Bool.false_eq_true, if_false, hloc.ib v rfl]
        split
        · next hroom =>
            exact insertAtEntry_spec hleaky1 hord hready hloc hclean1
              (fun hnone => by cases hnone) fun _ => hroom
        · next hfull =>
            have hthree :=
              three_le_of_full hblock hnames
                (le_trans (entryLength_le hnames _) (by decide)) (lt_of_not_ge hfull)
            have hat : AtBlock t w1.icx v s :=
              ⟨⟨_, hloc.path⟩, hloc.vcn, hloc.place.node, hloc.opened rfl⟩
            refine wp_then (ibSplitWith_spec (ibInsert_spec hblock hnames) hleaky1 hat hthree)
              fun _ w2 h2 => ?_
            obtain ⟨⟨t', hleaky, hsame, hfilled⟩, hdirty2⟩ := h2
            refine retry_spec (hagain t' hsame (.inl (hfilled ?_))) hleaky hsame
              (hdirty2.trans hclean1)
            exact hready.filled_of_entries hloc.place.node hthree

end Attempts

/-! ## Well-formed indexes -/

/-- A well-formed index holds a search tree in which no leaf below the root is empty,
and the bitmap marks exactly the blocks of this tree. The inorder sequence of a
search tree is increasing. -/
structure WellFormed (env : IndexEnv K) (index : StoredIndex K P) (t : IndexTree K P) : Prop where
  holds : Holds env index [] t
  filled : t.Filled
  ordered : Ordered t.inorder

lemma ordered_withRecord {es : List (Record K P)} (hes : Ordered es)
    (hx : x.key ∉ es.map Record.key) : Ordered (withRecord x es) := by
  induction es with
  | nil => exact pairwise_singleton _ _
  | cons y es ih =>
    obtain ⟨hy, hes'⟩ := pairwise_cons.mp hes
    rw [map_cons, mem_cons, not_or] at hx
    unfold withRecord
    rw [orderedInsert_cons]
    split
    · next hle =>
        have hlt : x.key < y.key := lt_of_le_of_ne hle hx.1
        refine pairwise_cons.mpr ⟨fun z hz => ?_, hes⟩
        rcases mem_cons.mp hz with rfl | hz
        · exact hlt
        · exact lt_trans hlt (hy z hz)
    · next hle =>
        refine pairwise_cons.mpr ⟨fun z hz => ?_, ih hes' hx.2⟩
        rcases (mem_orderedInsert _).mp hz with rfl | hz
        · exact not_le.mp hle
        · exact hy z hz

/-- For a key that is present, the lookup ends the operation. -/
lemma ieAddPut_present {t : IndexTree K P} {extra : List Nat} (fuel : Nat)
    (h : Holds env w.index extra t) (hord : Ordered t.inorder) (hclean : w.icx.ibDirty = false)
    (hx : x.key ∈ t.inorder.map Record.key) :
    wp (ieAddPut env (fuel + 1) ⟨x, none⟩) (fun _ _ => False)
      (fun err w' => w'.index = w.index ∧ (err = .errno .eexist ↔
        w'.refused = w.refused ∧ LevelsLeft w.icx t x.key)) w := by
  simp only [ieAddPut, ieAdd, wp_bind, wp_attempt]
  refine wp_mono (indexLookup_spec h.storesTree hord) (fun found w1 h1 => ?_) fun err w1 h1 => ?_
  · obtain ⟨p, s, pos, hloc⟩ := h1.located
    cases found with
    | true =>
      simp only [if_true, wp_fail, wp_bind]
      refine wp_mono (indexCtxFree_clean (h1.dirty.trans hclean)) (fun _ w2 h2 => ?_)
        fun _ _ h => h
      exact ⟨h2.1.trans h1.index,
        iff_of_true rfl ⟨h2.2.2.2.trans h1.refused, h1.levels⟩⟩
    | false => exact absurd hx (hloc.key_not_mem hord)
  · rw [wp_bind]
    refine wp_mono (indexCtxFree_clean (h1.dirty.trans hclean)) (fun _ w2 h2 => ?_)
      fun _ _ h => h
    refine ⟨h2.1.trans h1.index, iff_of_false h1.error ?_⟩
    rintro ⟨hrefused, hlevels⟩
    rw [h2.2.2.2] at hrefused
    rcases h1.cause with ⟨-, hdeep⟩ | ⟨r, n, -, hr⟩
    · exact hdeep hlevels
    · rw [hr] at hrefused
      exact cons_ne_self _ _ hrefused

/-- Adding an entry and releasing the context. -/
lemma ieAddPut_spec (hblock : 4096 ≤ env.blockSize) (hnames : ShortNames env)
    {w : IndexWorld K P} {t : IndexTree K P} {x : Record K P} {fuel : Nat}
    (h : Leaky env w [] t) (hord : Ordered t.inorder) (hready : Ready t)
    (hclean : w.icx.ibDirty = false) :
    wp (ieAddPut env fuel ⟨x, none⟩)
      (fun _ w' => x.key ∉ t.inorder.map Record.key ∧ AddStored env t x w')
      (fun _ _ => True) w := by
  simp only [ieAddPut, wp_bind, wp_attempt]
  refine wp_mono (ieAdd_spec hblock hnames h hord hready hclean) (fun _ w1 h1 => ?_)
    fun err w1 _ => ?_
  · rw [wp_bind]
    exact wp_mono h1.2 (fun _ w2 h2 => ⟨h1.1, h2⟩) fun _ _ h => h.elim
  · rw [wp_bind]
    exact wp_of_forall (fun _ _ => trivial) fun _ _ => trivial

omit [LinearOrder K] in
/-- A well-formed index marks no block for nothing. -/
lemma Holds.leaked_eq_nil {index : StoredIndex K P} {t t' : IndexTree K P} {leaked : List Nat}
    (h : Holds env index [] t) (h' : Holds env index leaked t') : t' = t ∧ leaked = [] := by
  cases h'.storesTree.unique h.storesTree
  refine ⟨rfl, eq_nil_iff_forall_not_mem.mpr fun v hv => h'.not_mem_refs hv ?_⟩
  have hin := (h.inUse v).mp ((h'.inUse v).mpr (mem_append_right _ hv))
  rwa [append_nil] at hin

/-- Names of 255 characters, blocks of 4096 bytes, an mft record in which the index
root cannot grow, and requests that fail as given. -/
def crowdedEnv (fails : Request → Bool) : IndexEnv Nat where
  nameLength := fun _ => 255
  blockSize := 4096
  fails := fun r _ => fails r
  truncate := fun _ _ => .filledMft
  resizeFails := fun _ => false
  garbageVcn := 0

def leafOf : List Nat → IndexTree Nat Unit
  | [] => .last
  | k :: ks => .cons ⟨k, ()⟩ (leafOf ks)

/-- One block with six entries, which has no room for another one. -/
def crowdedTree : IndexTree Nat Unit := .lastChild 0 (leafOf [10, 20, 30, 40, 50, 60])

def crowdedIndex : StoredIndex Nat Unit where
  root := nodeOf crowdedTree.shape
  rootAllocated := 40
  blocks := fun v => if v = 0 then some (nodeOf (leafOf [10, 20, 30, 40, 50, 60]).shape) else none
  bitmap := some (true :: replicate 63 false)
  hasAllocation := true

lemma crowdedIndex_wellFormed (fails : Request → Bool) :
    WellFormed (crowdedEnv fails) crowdedIndex crowdedTree where
  holds :=
    { root := rfl
      rootFits := le_refl 40
      blocks := by
        intro q hq
        cases mem_singleton.mp hq
        refine ⟨rfl, ?_⟩
        simp [IndexNode.blockLength, IndexNode.size, nodeOf, leafOf, shape, entries,
          lastRef, entriesLength, entryLength, fileNameEntryLength, vcnSize,
          blockEntriesOffset, blockAllocated, crowdedEnv]
      nodup := by decide
      inUse := by
        intro v
        cases v with
        | zero => decide
        | succ v =>
          refine iff_of_false ?_ (by simp [crowdedTree, leafOf])
          change (replicate 63 false).getD v false ≠ true
          rw [getD_eq_getElem?_getD, getElem?_replicate]
          split <;> decide
      proper := ⟨true, rfl, false, rfl, rfl, rfl, rfl, rfl, rfl, rfl⟩ }
  filled := by
    intro q hq
    cases mem_singleton.mp hq
    exact fun h => by cases congrArg Prod.fst h
  ordered := by
    unfold Ordered
    decide

/-- In a well-formed index, every marked block is a subnode of the root or of another
marked block. -/
lemma WellFormed.marked_children (h : WellFormed env index t) (hv : index.inUse v = true) :
    v ∈ children (index.root.entries, index.root.last) ∨
      ∃ u node, index.inUse u = true ∧ index.blocks u = some node ∧
        v ∈ children (node.entries, node.last) := by
  have hrefs : ∀ u, index.inUse u = true ↔ u ∈ t.refs := fun u => by
    rw [h.holds.inUse u, append_nil]
  rcases refs_children ((hrefs v).mp hv) with hroot | ⟨q, hq, hchild⟩
  · rw [h.holds.root]
    exact .inl hroot
  · refine .inr ⟨q.1, nodeOf q.2, (hrefs q.1).mpr ?_, (h.holds.blocks q hq).1, hchild⟩
    rw [refs_eq_stored]
    exact mem_map_of_mem hq

end NtfsDxe
