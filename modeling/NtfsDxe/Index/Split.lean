import NtfsDxe.Index.Lookup
import NtfsDxe.Index.Root

/-! # Splitting blocks

A full block is split at its median, which moves to the parent. If the parent is
full as well, it is split first, and the block stays as it was. In both cases
the tree has the same entries in the same order; in the second one the block
reserved for the tail stays marked if its bit cannot be cleared.
-/

namespace NtfsDxe

open Foundation ItemTree Prog List Function Items

variable {K P : Type}

/-! ## The nodes of a split -/

section Nodes

variable {s c l r : IndexTree K P} {m : Record K P}

/-- What `ntfs_ih_insert` makes of a node. -/
def IndexNode.insertMedian (node : IndexNode K P) (e : IndexEntry K P) (newVcn pos : Nat) :
    IndexNode K P :=
  (node.setVcn pos (some newVcn)).insert pos { e with child := node.vcnAt pos }

section

variable (node : IndexNode K P) (pos : Nat) (vcn : Option Nat)

lemma setVcn_entries :
    (node.setVcn pos vcn).entries = node.entries.modify pos fun e => { e with child := vcn } := by
  unfold IndexNode.setVcn
  rw [modify_eq_set_getElem?]
  cases node.entries[pos]? <;> rfl

lemma setVcn_last :
    (node.setVcn pos vcn).last = if pos < node.entries.length then node.last else vcn := by
  unfold IndexNode.setVcn
  cases hget : node.entries[pos]? with
  | none => rw [if_neg (not_lt.mpr (List.getElem?_eq_none_iff.mp hget))]
  | some e => rw [if_pos (List.getElem?_eq_some_iff.mp hget).1]

lemma setVcn_isNode : (node.setVcn pos vcn).isNode = node.isNode := by
  unfold IndexNode.setVcn
  cases node.entries[pos]? <;> rfl

end

lemma nodeOf_splitSlot (hslot : s.slot pos = some (v, c)) (hs : s.Uniform true)
    (child : Option Nat) :
    nodeOf (splitSlot l m new r pos s).shape =
      (nodeOf s.shape).insertMedian ⟨m, child⟩ new pos := by
  have hvcn : (nodeOf s.shape).vcnAt pos = some v := by
    rw [vcnAt_nodeOf (slot_le hslot), hslot]
    rfl
  have hlast : (splitSlot l m new r pos s).lastRef =
      ((nodeOf s.shape).setVcn pos (some new)).last :=
    (lastRef_splitSlot hslot).trans (setVcn_last (nodeOf s.shape) pos (some new)).symm
  have hentries : (splitSlot l m new r pos s).entries =
      ((nodeOf s.shape).setVcn pos (some new)).entries.take pos ++
        ⟨m, some v⟩ :: ((nodeOf s.shape).setVcn pos (some new)).entries.drop pos := by
    rw [setVcn_entries]
    exact entries_splitSlot hslot
  have hisNode : (splitSlot l m new r pos s).lastRef.isSome = true := by
    rw [lastRef_splitSlot hslot]
    split
    · exact hs.lastRef_isSome
    · rfl
  unfold IndexNode.insertMedian IndexNode.insert
  rw [hvcn, setVcn_isNode]
  simp only [nodeOf, shape] at hentries hlast ⊢
  rw [hentries, ← hlast, hisNode, hs.lastRef_isSome]

/-- The size of the parent grows by the size of the median and its subnode. -/
lemma size_splitSlot (l : IndexTree K P) (new : Nat) (r : IndexTree K P)
    (hslot : s.slot pos = some (v, c)) :
    (nodeOf (splitSlot l m new r pos s).shape).size env =
      (nodeOf s.shape).size env + fileNameEntryLength (env.nameLength m.key) + 8 := by
  unfold IndexNode.size
  simp only [nodeOf, shape]
  induction s generalizing pos with
  | last => cases pos <;> cases hslot
  | lastChild u d _ =>
    cases pos with
    | zero =>
      simp [splitSlot, entries, lastRef, entriesLength, entryLength, vcnSize]
      omega
    | succ n => cases hslot
  | cons e s ih =>
    cases pos with
    | zero => cases hslot
    | succ n =>
      have := ih (show s.slot n = some (v, c) from hslot)
      simp only [splitSlot, entries, lastRef, entriesLength] at this ⊢
      omega
  | consChild u d e s _ ih =>
    cases pos with
    | zero =>
      simp [splitSlot, entries, lastRef, entriesLength, entryLength, vcnSize]
      omega
    | succ n =>
      have := ih (show s.slot n = some (v, c) from hslot)
      simp only [splitSlot, entries, lastRef, entriesLength] at this ⊢
      omega

section

variable (hsplit : SplitOf k c l m r)
include hsplit

/-- `ntfs_ib_copy_tail` writes the part after the median. -/
lemma nodeOf_right :
    { nodeOf c.shape with entries := (nodeOf c.shape).entries.drop (k + 1) } = nodeOf r.shape := by
  simp only [nodeOf, shape, hsplit.right_entries, hsplit.right_lastRef]

/-- `ntfs_ib_cut_tail` leaves the part before the median. -/
lemma nodeOf_left (hc : c.Proper) :
    { nodeOf c.shape with
      entries := (nodeOf c.shape).entries.take k
      last := if (nodeOf c.shape).last.isSome then (nodeOf c.shape).vcnAt k
        else (nodeOf c.shape).last } = nodeOf l.shape := by
  obtain ⟨inner, hu⟩ := hc
  have hl := (hsplit.uniform inner hu).1.lastRef_isSome
  have hinner := hu.lastRef_isSome
  have hvcn : (nodeOf c.shape).vcnAt k = l.lastRef := by
    unfold IndexNode.vcnAt
    rw [show (nodeOf c.shape).entries[k]? = some ⟨m, l.lastRef⟩ from hsplit.median]
  rw [hvcn]
  simp only [nodeOf, shape, hsplit.left_entries, hinner, hl]
  cases inner with
  | true => rfl
  | false =>
    rw [Option.isSome_eq_false_iff, Option.isNone_iff_eq_none] at hl hinner
    rw [hl, hinner]
    rfl

lemma blockLength_right_le :
    (nodeOf r.shape).blockLength env ≤ (nodeOf c.shape).blockLength env := by
  unfold IndexNode.blockLength IndexNode.size
  simp only [nodeOf, shape, hsplit.right_entries, hsplit.right_lastRef]
  have := entriesLength_drop_le env (k + 1) c.entries
  omega

lemma blockLength_left_le (hc : c.Proper) :
    (nodeOf l.shape).blockLength env ≤ (nodeOf c.shape).blockLength env := by
  obtain ⟨inner, hu⟩ := hc
  have hsize :=
    vcnSize_congr ((hsplit.uniform inner hu).1.lastRef_isSome.trans hu.lastRef_isSome.symm)
  unfold IndexNode.blockLength IndexNode.size
  simp only [nodeOf, shape, hsplit.left_entries]
  have := entriesLength_take_le env k c.entries
  omega

end

end Nodes

/-! ## The tree after a split -/

section Tree

variable {t s c l r : IndexTree K P}

/-- The nodes of the parent in which a child is split: the two parts, and nodes that
were below the parent before. -/
lemma mem_stored_splitSlot (hslot : s.slot pos = some (v, c)) (hsplit : SplitOf k c l m r)
    (hq : q ∈ (splitSlot l m new r pos s).stored) (hnodup : s.refs.Nodup) :
    q = (v, l.shape) ∨ q = (new, r.shape) ∨ q ∈ s.stored ∧ q.1 ≠ v := by
  obtain ⟨others, hold, hnew⟩ := stored_splitSlot hslot l m new r
  have hnodup' : (v :: (c.stored ++ others).map Prod.fst).Nodup := by
    have h := (hold.map Prod.fst).nodup_iff.mp (refs_eq_stored s ▸ hnodup)
    exact h
  have hbelow : ∀ x ∈ c.stored ++ others, x ∈ s.stored ∧ x.1 ≠ v := by
    intro x hx
    refine ⟨hold.mem_iff.mpr (mem_cons_of_mem _ hx), ?_⟩
    rintro rfl
    exact (nodup_cons.mp hnodup').1 (mem_map_of_mem hx)
  rcases mem_cons.mp (hnew.mem_iff.mp hq) with rfl | hq
  · exact .inl rfl
  · rcases mem_cons.mp hq with rfl | hq
    · exact .inr (.inl rfl)
    · refine .inr (.inr (hbelow q ?_))
      rcases mem_append.mp hq with hq | hq
      · exact mem_append_left _ (hsplit.stored_perm.mem_iff.mpr hq)
      · exact mem_append_right _ hq

lemma refs_splitSlot_perm (hslot : s.slot pos = some (v, c)) (hsplit : SplitOf k c l m r) :
    ((splitSlot l m new r pos s).refs ++ extra).Perm (s.refs ++ new :: extra) := by
  obtain ⟨others, hold, hnew⟩ := stored_splitSlot hslot l m new r
  have hperm : (splitSlot l m new r pos s).stored.Perm ((new, r.shape) ::
      ((v, l.shape) :: c.stored ++ others)) := by
    refine hnew.trans ((List.Perm.swap _ _ _).trans (List.Perm.cons _ (List.Perm.cons _ ?_)))
    exact hsplit.stored_perm.symm.append_right _
  have hrefs : (splitSlot l m new r pos s).refs.Perm (new :: s.refs) := by
    rw [refs_eq_stored, refs_eq_stored s]
    exact (hperm.map Prod.fst).trans ((hold.map Prod.fst).symm.cons new)
  exact (hrefs.append_right extra).trans perm_middle.symm

/-- The index after the median was moved to the parent at `p`. -/
lemma Holds.split (h : Holds env index (new :: extra) t) (hs : t.NodeAt p s)
    (hslot : s.slot pos = some (v, c)) (hsplit : SplitOf k c l m r)
    (hroot : index'.root = nodeOf (replaceAt p (splitSlot l m new r pos s) t).shape)
    (hrootFits : index'.root.rootLength env ≤ index'.rootAllocated) (hparent : ∀ u, p = some u →
      index'.blocks u = some (nodeOf (splitSlot l m new r pos s).shape) ∧
      (nodeOf (splitSlot l m new r pos s).shape).blockLength env ≤ blockAllocated env)
    (hleft : index'.blocks v = some (nodeOf l.shape))
    (hright : index'.blocks new = some (nodeOf r.shape))
    (hframe : ∀ x, p ≠ some x → x ≠ v → x ≠ new → index'.blocks x = index.blocks x)
    (hbitmap : index'.bitmap = index.bitmap) :
    Holds env index' extra (replaceAt p (splitSlot l m new r pos s) t) := by
  have hv : v ∈ s.refs := mem_refs.mpr ⟨c, slot_mem hslot⟩
  have hc : t.NodeAt (some v) c := hs.subtrees_subset (slot_mem hslot)
  have hnewRef := h.not_mem_refs mem_cons_self
  have hproper : c.Proper := hc.proper h.proper
  refine h.replace hs hroot hrootFits ?_ ?_ (refs_splitSlot_perm hslot hsplit) hbitmap ?_
  · intro q hq
    rcases mem_append.mp hq with hq | hq
    · cases p with
      | none => cases hq
      | some u =>
        cases mem_singleton.mp hq
        exact hparent u rfl
    · rcases mem_stored_splitSlot hslot hsplit hq (hs.refs_nodup h.refs_nodup) with
        rfl | rfl | ⟨hq, hne⟩
      · exact ⟨hleft, le_trans (blockLength_left_le hsplit hproper) (h.node_fits hc)⟩
      · exact ⟨hright, le_trans (blockLength_right_le hsplit) (h.node_fits hc)⟩
      · have hqt : q ∈ t.stored :=
          hs.stored_subset h.refs_nodup (mem_append_right _ hq)
        have hqs : q.1 ∈ s.refs := by
          rw [refs_eq_stored]
          exact mem_map_of_mem hq
        have hnewNe : q.1 ≠ new := by
          rintro rfl
          refine hnewRef ?_
          rw [refs_eq_stored]
          exact mem_map_of_mem hqt
        rw [hframe q.1 (hs.ne_some h.refs_nodup hqs) hne hnewNe]
        exact h.blocks q hqt
  · intro x hx hextra
    rw [map_append, ← refs_eq_stored, mem_append, not_or] at hx
    refine hframe x ?_ (fun hxv => hx.2 (hxv ▸ hv)) fun hxn => hextra (hxn ▸ mem_cons_self)
    rintro rfl
    exact hx.1 (by simp [self])
  · obtain ⟨b, hb⟩ := hproper
    exact (hs.proper h.proper).imp fun _ hu =>
      uniform_splitSlot hu ⟨b, (hsplit.uniform b hb).1⟩ ⟨b, (hsplit.uniform b hb).2⟩

/-- Splitting a child with at least three entries leaves no leaf empty. -/
lemma filled_split (hnodup : t.refs.Nodup) (hfilled : t.Filled) (hs : t.NodeAt p s)
    (hslot : s.slot pos = some (v, c)) (hsplit : SplitOf k c l m r)
    (hk : k = c.entries.length / 2) (hthree : 3 ≤ c.entries.length) :
    (replaceAt p (splitSlot l m new r pos s) t).Filled := by
  have hentries : ∀ x : IndexTree K P, 0 < x.entries.length → x.shape ≠ ([], none) := by
    intro x hpos heq
    rw [show x.entries = [] from congrArg Prod.fst heq] at hpos
    exact lt_irrefl 0 hpos
  refine filled_replaceAt hnodup hs hfilled fun q hq => ?_
  rcases mem_append.mp hq with hq | hq
  · cases p with
    | none => cases hq
    | some u =>
      cases mem_singleton.mp hq
      refine hentries _ ?_
      rw [entries_splitSlot hslot]
      simp
  · rcases mem_stored_splitSlot hslot hsplit hq (hs.refs_nodup hnodup) with rfl | rfl | ⟨hq, -⟩
    · refine hentries l ?_
      rw [hsplit.left_entries, length_take]
      omega
    · refine hentries r ?_
      rw [hsplit.right_entries, length_drop]
      omega
    · exact hfilled q (hs.stored_subset hnodup (mem_append_right _ hq))

end Tree

/-! ## Inserting the median -/

/-- The refusals after which blocks have leaked: each time the clearing of a bit. -/
def leaks (leaked : List Nat) : List Request := leaked.map fun _ => .bitmap false

/-- The index holds the tree. A block is marked for nothing for each refusal, which was
one to clear its bit. -/
def Leaky (env : IndexEnv K) (w : IndexWorld K P) (extra : List Nat) (t : IndexTree K P) : Prop :=
  ∃ leaked, Holds env w.index (leaked ++ extra) t ∧ w.refused = leaks leaked

/-- The index holds a tree with the same entries. -/
def Kept (env : IndexEnv K) (extra : List Nat) (t : IndexTree K P) (w : IndexWorld K P) : Prop :=
  ∃ t', Leaky env w extra t' ∧ t'.inorder = t.inorder ∧ (t.Filled → t'.Filled)

def Inserted (env : IndexEnv K) (p : Option Nat) (node : IndexNode K P)
    (index index' : StoredIndex K P) : Prop :=
  index'.bitmap = index.bitmap ∧ index'.root.rootLength env ≤ index'.rootAllocated ∧
    match p with
    | none => index'.root = node ∧ index'.blocks = index.blocks
    | some u => index'.root = index.root ∧
        index'.blocks = update index.blocks u (some node) ∧
        node.blockLength env ≤ blockAllocated env

/-- The context points to the slot of `s` in which the child `c` is. -/
structure AtSlot (t : IndexTree K P) (icx : IndexContext K P) (p : Option Nat) (s : IndexTree K P)
    (v : Nat) (c : IndexTree K P) : Prop where
  path : ∃ lo, Path t icx.parentVcn icx.parentPos lo icx.pindex
  vcn : icx.parentVcn icx.pindex = p
  node : t.NodeAt p s
  slot : s.slot (icx.parentPos icx.pindex) = some (v, c)
  opened : icx.held .iaNa = .opened

/-- How inserting a median ends: it is in the parent, or the insertion has to be tried
again in a tree with the same entries. -/
def InsertPost (env : IndexEnv K) (extra : List Nat) (t : IndexTree K P) (w : IndexWorld K P)
    (p : Option Nat) (s : IndexTree K P) (e : IndexEntry K P) (new : Nat) (r : Progress)
    (w' : IndexWorld K P) : Prop :=
  match r with
  | .ok => w'.icx = w.icx ∧ w'.refused = w.refused ∧ Inserted env p
      ((nodeOf s.shape).insertMedian e new (w.icx.parentPos w.icx.pindex)) w.index w'.index
  | .keepSearching => Kept env extra t w' ∧ w'.icx.ibDirty = w.icx.ibDirty

section Median

variable {w : IndexWorld K P} {t s c : IndexTree K P}

/-- Giving up a reserved block. -/
lemma kept_giveUp (h : Kept env (new :: extra) t w) :
    wp (attempt (ibmModify env new false))
      (fun _ w' => Kept env extra t w' ∧ w'.icx = w.icx) E w := by
  obtain ⟨t', ⟨leaked, hholds, hleaked⟩, hinorder, hfilled⟩ := h
  refine wp_mono (giveUp_spec (hholds.perm perm_middle)) (fun _ w' h' => ?_) fun _ _ h => h
  obtain ⟨hcleared | hleak, hicx⟩ := h'
  · exact ⟨⟨t', ⟨leaked, hcleared.1, hcleared.2.trans hleaked⟩, hinorder, hfilled⟩, hicx⟩
  · refine ⟨⟨t', ⟨new :: leaked, hleak.1, ?_⟩, hinorder, hfilled⟩, hicx⟩
    rw [hleak.2, hleaked]
    rfl

lemma size_insertMedian (env : IndexEnv K) (e : IndexEntry K P) (new : Nat)
    (hslot : s.slot pos = some (v, c)) (hs : s.Uniform true) :
    ((nodeOf s.shape).insertMedian e new pos).size env =
      (nodeOf s.shape).size env + fileNameEntryLength (env.nameLength e.item.key) + 8 := by
  rw [← size_splitSlot .last new .last hslot, nodeOf_splitSlot hslot hs e.child]

lemma ihInsert_spec :
    wp (ihInsert env node e new pos)
      (fun node' w' => node' = node.insertMedian e new pos ∧ w'.index = w.index ∧
        w'.icx = w.icx ∧ w'.refused = w.refused)
      (fun _ _ => True) w := by
  simp only [ihInsert, wp_bind, wp_request, wp_ite]
  refine ⟨fun _ => trivial, fun _ => ?_⟩
  split
  · exact ⟨fun _ => trivial, fun _ => ⟨rfl, rfl, rfl, rfl⟩⟩
  · exact ⟨rfl, rfl, rfl, rfl⟩

lemma irInsertMedian_spec (h : Leaky env w extra t) (hat : AtSlot t w.icx none s v c) :
    wp (irInsertMedian env e new) (InsertPost env extra t w none s e new) (fun _ _ => True) w := by
  obtain ⟨leaked, h, hleaked⟩ := h
  have hst : s = t := hat.node
  subst hst
  have huniform := h.proper.uniform_of_slot hat.slot
  have hne : s ≠ last := by
    rintro rfl
    have hslot := hat.slot
    cases w.icx.parentPos w.icx.pindex <;> cases hslot
  have hsize := size_insertMedian env e new hat.slot huniform
  simp only [irInsertMedian, wp_bind, wp_request, wp_reads]
  refine ⟨fun _ => trivial, fun _ => ?_⟩
  refine wp_mono (irMakeSpace_spec (w := w.tick) h) (fun r w1 h1 => ?_) fun _ _ _ => trivial
  cases r with
  | keepSearching =>
    obtain ⟨⟨u, hu⟩, hdirty, hrefused⟩ := h1
    exact ⟨⟨lastChild u s, ⟨leaked, hu, hrefused.trans hleaked⟩, rfl,
      fun hf => hf.lastChild hne u⟩, hdirty⟩
  | ok =>
    obtain ⟨hindex, hicx, hrefused⟩ := h1
    have hroot : w1.index.root = nodeOf s.shape := by
      rw [hindex]
      exact h.root
    simp only [wp_bind, wp_request, wp_reads, id]
    refine ⟨fun _ => trivial, fun _ => ?_⟩
    refine wp_mono ihInsert_spec (fun node w2 h2 => ?_) fun _ _ _ => trivial
    obtain ⟨hnode, hindex2, hicx2, hrefused2⟩ := h2
    rw [IndexWorld.tick_icx, IndexWorld.tick_index, hicx, hroot] at hnode
    have hresized := hindex2.trans hindex
    have hbitmap : w2.index.bitmap = w.index.bitmap := by rw [hresized]; rfl
    have hblocks : w2.index.blocks = w.index.blocks := by rw [hresized]; rfl
    refine ⟨hicx2.trans hicx, hrefused2.trans hrefused, hbitmap, ?_, hnode, hblocks⟩
    change node.rootLength env ≤ w2.index.rootAllocated
    rw [hresized, hnode]
    simp only [IndexNode.rootLength, IndexWorld.tick_index, h.root, entryLength]
    cases e.child <;> simp [vcnSize] <;> omega

end Median

/-! ## Splitting a block -/

/-- The context points to the block `c`. -/
structure AtBlock (t : IndexTree K P) (icx : IndexContext K P) (v : Nat) (c : IndexTree K P) :
    Prop where
  path : ∃ lo, Path t icx.parentVcn icx.parentPos lo icx.pindex
  vcn : icx.parentVcn icx.pindex = some v
  node : t.NodeAt (some v) c
  opened : icx.held .iaNa = .opened

lemma AtBlock.parent (h : AtBlock t icx v c) (hnodup : t.refs.Nodup) :
    ∃ n, icx.pindex = n + 1 ∧ ∃ p s, AtSlot t { icx with pindex := n } p s v c := by
  obtain ⟨lo, hpath⟩ := h.path
  have hlt : lo < icx.pindex := by
    refine Nat.lt_of_le_of_ne hpath.le ?_
    rintro rfl
    have hstart := hpath.start
    rw [h.vcn] at hstart
    cases hstart
  obtain ⟨n, hn⟩ := Nat.exists_eq_succ_of_ne_zero (ne_of_gt (Nat.zero_lt_of_lt hlt))
  have hle : lo ≤ n := Nat.le_of_lt_succ (hn ▸ hlt)
  obtain ⟨s, v', c', hs, hslot, hv'⟩ := hpath.step n hle (hn ▸ Nat.lt_succ_self n)
  rw [← Nat.succ_eq_add_one, ← hn, h.vcn] at hv'
  cases hv'
  have hc' := hs.subtrees_subset (slot_mem hslot)
  cases subtree_unique hnodup h.node hc'
  refine ⟨n, hn, icx.parentVcn n, s, ⟨lo, hle, hpath.start, fun i hi hin => ?_⟩, rfl, hs, hslot,
    h.opened⟩
  exact hpath.step i hi (lt_trans hin (hn ▸ Nat.lt_succ_self n))

def InsertSpec (env : IndexEnv K) (ins : IndexEntry K P → Nat → IndexM K P Progress) : Prop :=
  ∀ (w : IndexWorld K P) (extra : List Nat) (t s c : IndexTree K P) (e : IndexEntry K P)
    (u v new : Nat), Leaky env w extra t → AtSlot t w.icx (some u) s v c →
    wp (ins e new) (InsertPost env extra t w (some u) s e new) (fun _ _ => True) w

section Split

variable {w : IndexWorld K P}

/-- The tail is copied to a reserved block before the median is inserted. -/
lemma ibMoveMedian_spec (hins : InsertSpec env ins) (h : Leaky env w (new :: extra) t)
    (hat : AtSlot t w.icx p s v c) (hsplit : SplitOf k c l m r) :
    wp (ibMoveMedian env ins (nodeOf c.shape) k ⟨m, l.lastRef⟩ new)
      (InsertPost env (new :: extra) t (w.putBlock new (nodeOf r.shape)) p s ⟨m, l.lastRef⟩ new)
      (fun _ _ => True) w := by
  obtain ⟨leaked, h, hleaked⟩ := h
  have hnew := h.not_mem_refs (mem_append_right leaked mem_cons_self)
  simp only [ibMoveMedian, ibCopyTail, wp_bind, wp_request, nodeOf_right hsplit]
  refine ⟨fun _ => trivial, fun _ => ?_⟩
  refine wp_ibWrite (fun _ _ => trivial) (fun _ => trivial) fun _ _ => ?_
  have h' : Leaky env (w.tick.tick.putBlock new (nodeOf r.shape)) (new :: extra) t :=
    ⟨leaked, h.write_unused hnew _, hleaked⟩
  have hat' : AtSlot t (w.tick.tick.putBlock new (nodeOf r.shape)).icx p s v c := hat
  rw [wp_bind, wp_reads, id, hat'.vcn]
  cases p with
  | none => exact irInsertMedian_spec h' hat'
  | some u => exact hins _ _ t s c _ u v new h' hat'

/-- Once the median is in the parent, cutting the tail off completes the split. -/
lemma Holds.cutTail (h : Holds env index (new :: extra) t) (hs : t.NodeAt p s)
    (hslot : s.slot pos = some (v, c)) (hsplit : SplitOf k c l m r)
    (hins : Inserted env p ((nodeOf s.shape).insertMedian ⟨m, l.lastRef⟩ new pos)
      { index with blocks := update index.blocks new (some (nodeOf r.shape)) } index') :
    Holds env { index' with blocks := update index'.blocks v (some (nodeOf l.shape)) }
      extra (replaceAt p (splitSlot l m new r pos s) t) := by
  have hv : v ∈ s.refs := mem_refs.mpr ⟨c, slot_mem hslot⟩
  have hvt : v ∈ t.refs := mem_refs.mpr ⟨c, hs.subtrees_subset (slot_mem hslot)⟩
  have hnew := h.not_mem_refs mem_cons_self
  have hvnew : v ≠ new := fun heq => hnew (heq ▸ hvt)
  have huniform := (hs.proper h.proper).uniform_of_slot hslot
  rw [← nodeOf_splitSlot (l := l) (r := r) hslot huniform] at hins
  obtain ⟨hbitmap, hrootFits, hstored⟩ := hins
  cases p with
  | none =>
    obtain ⟨hroot, hblocks⟩ := hstored
    dsimp only at hblocks
    refine h.split hs hslot hsplit hroot hrootFits (fun u hu => by cases hu)
      (update_self _ _ _) ?_ (fun x _ hxv hxn => ?_) hbitmap
    · dsimp only
      rw [update_of_ne hvnew.symm, hblocks, update_self]
    · dsimp only
      rw [update_of_ne hxv, hblocks]
      exact update_of_ne hxn _ _
  | some u =>
    obtain ⟨hroot, hblocks, hfits⟩ := hstored
    dsimp only at hblocks
    have huv : u ≠ v := fun heq => hs.ne_some h.refs_nodup hv (congrArg some heq)
    have hunew : u ≠ new := fun heq => hnew (heq ▸ mem_refs.mpr ⟨s, hs⟩)
    have hroot' : index'.root =
        nodeOf (replaceAt (some u) (splitSlot l m new r pos s) t).shape := by
      rw [hroot, replaceAt, shape_setNode]
      exact h.root
    refine h.split hs hslot hsplit hroot' hrootFits (fun u' hu' => ?_)
      (update_self _ _ _) ?_ (fun x hxu hxv hxn => ?_) hbitmap
    · cases hu'
      dsimp only
      rw [update_of_ne huv, hblocks, update_self]
      exact ⟨rfl, hfits⟩
    · dsimp only
      rw [update_of_ne hvnew.symm, hblocks, update_of_ne hunew.symm, update_self]
    · have hne : x ≠ u := fun heq => hxu (heq ▸ rfl)
      dsimp only
      rw [update_of_ne hxv, hblocks, update_of_ne hne]
      exact update_of_ne hxn _ _

lemma ibSplitWith_spec (hins : InsertSpec env ins) (h : Leaky env w extra t)
    (hat : AtBlock t w.icx v c) (hthree : 3 ≤ c.entries.length) :
    wp (ibSplitWith env ins v (nodeOf c.shape))
      (fun _ w' => Kept env extra t w' ∧ w'.icx.ibDirty = w.icx.ibDirty) (fun _ _ => True) w := by
  obtain ⟨leaked, h, hleaked⟩ := h
  obtain ⟨n, hn, p, s, hslot⟩ := hat.parent h.refs_nodup
  obtain ⟨l, m, r, hsplit⟩ := splitAt_exists (c := c) (k := c.entries.length / 2) (by omega)
  have hsplit := splitAt_spec hsplit
  simp only [ibSplitWith, icxParentDec, wp_bind, wp_reads, wp_ite, wp_modifyIcx]
  rw [if_neg (by rw [hn]; exact Nat.succ_ne_zero n)]
  have hmedian : (nodeOf c.shape).entries[(nodeOf c.shape).entries.length / 2]? =
      some ⟨m, l.lastRef⟩ := hsplit.median
  have hpred : w.icx.pindex - 1 = n := by rw [hn]; rfl
  rw [hmedian, hpred, wp_bind]
  refine wp_mono (ibmGetFree_spec h) (fun new w1 h1 => ?_) fun _ _ _ => trivial
  obtain ⟨hholds, hicx, hrefused⟩ := h1
  have hholds : Holds env w1.index (leaked ++ new :: extra) t := hholds.perm perm_middle.symm
  have hleaky : Leaky env w1 (new :: extra) t := ⟨leaked, hholds, hrefused.trans hleaked⟩
  have hslot1 : AtSlot t w1.icx p s v c := hicx ▸ hslot
  have hdirty : w1.icx.ibDirty = w.icx.ibDirty := by rw [hicx]
  rw [wp_bind, wp_attempt]
  refine wp_mono (ibMoveMedian_spec hins hleaky hslot1 hsplit) (fun r' w2 h2 => ?_)
    fun e w2 _ => ?_
  · cases r' with
    | ok =>
      obtain ⟨hicx2, hrefused2, hins2⟩ := h2
      have hopen : w2.icx.held .iaNa = .opened := by
        rw [hicx2]
        exact hslot1.opened
      have hdone := (hholds.perm perm_middle).cutTail hslot1.node hslot1.slot hsplit hins2
      have hcut : ibCutTail env v (nodeOf c.shape) ((nodeOf c.shape).entries.length / 2) =
          ibWrite env false v (nodeOf l.shape) :=
        congrArg (ibWrite env false v) (nodeOf_left hsplit (hat.node.proper h.proper))
      rw [wp_bind, hcut]
      refine wp_ibWrite (fun _ _ => trivial) (fun _ => trivial) fun _ _ => ⟨⟨_, ⟨leaked, hdone, ?_⟩,
        ?_, fun hfilled => ?_⟩, ?_⟩
      · exact hrefused2.trans (hrefused.trans hleaked)
      · obtain ⟨pre, post, hold, hnew⟩ := inorder_replaceAt h.refs_nodup hslot1.node
        rw [hnew, hold, inorder_splitSlot hslot1.slot hsplit.inorder_eq]
      · exact filled_split h.refs_nodup hfilled hslot1.node hslot1.slot hsplit rfl hthree
      · change w2.icx.ibDirty = _
        rw [hicx2]
        exact hdirty
    | keepSearching =>
      rw [wp_bind]
      refine wp_mono (kept_giveUp h2.1) (fun _ w3 h3 => ?_) fun _ _ h => h
      exact ⟨h3.1, by rw [h3.2, h2.2]; exact hdirty⟩
  · rw [wp_bind]
    exact wp_of_forall (fun _ _ => trivial) fun _ _ => trivial

/-- Inserting a median into a parent block, which is split if it is full. -/
lemma ibInsert_spec (hblock : 4096 ≤ env.blockSize) (hnames : ShortNames env) :
    InsertSpec env (ibInsert env fuel : IndexEntry K P → Nat → IndexM K P Progress) := by
  induction fuel with
  | zero => exact fun w extra t s c e u v new _ _ => trivial
  | succ fuel ih =>
    intro w extra t s c e u v new hleaky hat
    obtain ⟨leaked, h, -⟩ := id hleaky
    have hnode := h.node_stored hat.node
    have huniform := (hat.node.proper h.proper).uniform_of_slot hat.slot
    simp only [ibInsert, wp_bind, wp_request, wp_reads, id]
    refine ⟨fun _ => trivial, fun _ => ?_⟩
    rw [show w.tick.icx.parentVcn w.tick.icx.pindex = some u from hat.vcn, wp_bind]
    refine wp_ibRead hat.opened hnode (fun _ => trivial) fun _ => ?_
    split
    · next hfull =>
        have hat' : AtBlock t w.tick.tick.icx u s := { hat with }
        have hlen := entryLength_le hnames e
        have hthree := three_le_of_full hblock hnames (Nat.add_le_add_right hlen 8)
          (add_assoc _ _ 8 ▸ hfull)
        rw [wp_bind]
        exact wp_mono (ibSplitWith_spec (w := w.tick.tick) ih hleaky hat' hthree)
          (fun _ _ h' => h') fun _ _ h' => h'
    · next hroom =>
        rw [wp_bind, wp_reads, wp_bind]
        refine wp_mono ihInsert_spec (fun node w1 h1 => ?_) fun _ _ _ => trivial
        obtain ⟨hmedian, hindex, hicx, hrefused⟩ := h1
        rw [wp_bind]
        refine wp_ibWrite (fun _ _ => trivial) (fun _ => trivial) fun _ _ => ?_
        have hindex' : w1.index = w.index := hindex
        have hsize := size_insertMedian env e new hat.slot huniform
        have hlen : node.blockLength env ≤ blockAllocated env := by
          rw [hmedian]
          change blockEntriesOffset env + IndexNode.size env
            ((nodeOf s.shape).insertMedian e new (w.icx.parentPos w.icx.pindex)) ≤ _
          unfold IndexNode.blockLength entryLength at hroom
          omega
        change w1.icx = w.icx ∧ w1.refused = w.refused ∧
          Inserted env (some u) _ w.index (w1.putBlock u node).index
        rw [IndexWorld.putBlock, hindex']
        exact ⟨hicx, hrefused, rfl, h.rootFits, rfl, by rw [hmedian]; rfl, hmedian ▸ hlen⟩

end Split

end NtfsDxe
