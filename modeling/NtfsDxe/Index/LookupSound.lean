import NtfsDxe.Index.AddSound

/-! # Looking up a key in a well-formed index

With a fresh context, a lookup tells whether the key is in the index. In either case it
leaves the path to a node in the context, and the entry in that node at which the key is or
before which it belongs.
-/

namespace NtfsDxe

open Foundation ItemTree Prog

variable {K P : Type} [LinearOrder K]

/-- The context describes the entry at `pos` of the node `s`, which is at `p` in the tree: the
levels are the path from the root to this node. -/
structure DescribesEntry (t : IndexTree K P) (icx : IndexContext K P) (p : Option Nat)
    (s : IndexTree K P) (pos : Nat) : Prop where
  node : t.NodeAt p s
  path : Path t icx.parentVcn icx.parentPos 0 icx.pindex
  vcn : icx.parentVcn icx.pindex = p
  inRoot : icx.isInRoot = p.isNone
  block : ∀ v, p = some v → icx.ib = (v, nodeOf s.shape)
  hasEntry : icx.hasEntry = true
  entry : icx.entry = pos
  pos_le : pos ≤ s.entries.length

namespace Located

variable {t s : IndexTree K P}

lemma pos_le (h : Located t icx key lo found p s pos) : pos ≤ s.entries.length := by
  cases found with
  | true =>
    obtain ⟨-, e, he, -⟩ := h.isFound rfl
    exact le_of_lt (List.getElem?_eq_some_iff.mp he).1
  | false =>
    obtain ⟨-, hsearch⟩ := h.notFound rfl
    have hle : (searchEntries key s.entries).1 ≤ s.entries.length := searchEntries_le
    rw [hsearch] at hle
    exact hle

lemma describes (h : Located t icx key 0 found p s pos) : DescribesEntry t icx p s pos where
  node := h.place.node
  path := h.path
  vcn := h.vcn
  inRoot := h.inRoot
  block := h.ib
  hasEntry := h.hasEntry
  entry := h.entry
  pos_le := h.pos_le

lemma key_mem (h : Located t icx key lo true p s pos) : key ∈ t.inorder.map Record.key := by
  obtain ⟨-, e, he, rfl⟩ := h.isFound rfl
  obtain ⟨pre, post, hold, -⟩ := h.place.around
  apply List.mem_map_of_mem
  rw [hold]
  apply List.mem_append_left
  apply List.mem_append_right
  exact Items.mem_inorder_of_entry (List.mem_of_getElem? he)

lemma found_iff (h : Located t icx key lo found p s pos) (hord : Ordered t.inorder) :
    found = true ↔ key ∈ t.inorder.map Record.key := by
  cases found with
  | true => exact iff_of_true rfl h.key_mem
  | false => exact iff_of_false Bool.false_ne_true (h.key_not_mem hord)

end Located

/-- Without failing requests a lookup only fails if there are too many levels. -/
lemma indexLookup_ok (hno : NoFaults env) (h : StoresTree w.index t) (hord : Ordered t.inorder)
    (hdepth : w.icx.pindex + t.height < maxParentVcn) (key : K) :
    ∃ found w', indexLookup env key w = (.ok found, w') ∧ LookedUp w t key found w' := by
  have hspec : wp (indexLookup env key) (LookedUp w t key) _ w := indexLookup_spec h hord
  have hle := searchDepth_le key t
  rcases hrun : indexLookup env key w with ⟨_ | found, w'⟩
  · rcases (wp_error hspec hrun).cause with ⟨-, hdeep⟩ | ⟨r, n, hfail, -⟩
    · exact absurd (.inr (by omega)) hdeep
    · rw [hno] at hfail
      cases hfail
  · exact ⟨found, w', rfl, wp_ok hspec hrun⟩

/-- What a lookup with a fresh context yields: the key is in the index just if it is found;
then the entry has it, and otherwise the entry is in a leaf, where the key can be put before it
in the order of the keys. The position in the last node is recorded only for a key that is
found. -/
theorem indexLookup_correct {t : IndexTree K P}
    (hno : NoFaults env) (h : StoresTree index t) (hord : Ordered t.inorder)
    (hdepth : t.height < maxParentVcn) (key : K) (clock : Nat) :
    ∃ found w', indexLookup env key (.start index clock) = (.ok found, w') ∧
      w'.index = index ∧ (found = true ↔ key ∈ t.inorder.map Record.key) ∧
      ∃ p s pos, DescribesEntry t w'.icx p s pos ∧
        (found = true → w'.icx.parentPos w'.icx.pindex = pos ∧
          ∃ e, s.entries[pos]? = some e ∧ e.item.key = key) ∧
        (found = false → s.Uniform false ∧
          ∀ data, Ordered (Items.replaceAt p (Items.insertAt ⟨key, data⟩ pos s) t).inorder) := by
  obtain ⟨found, w', hrun, hlook⟩ :=
    indexLookup_ok (w := .start index clock) hno h hord
      ((zero_add _).trans_lt hdepth) key
  obtain ⟨p, s, pos, hloc⟩ := hlook.located
  refine ⟨found, w', hrun, hlook.index, hloc.found_iff hord, p, s, pos, hloc.describes, ?_, ?_⟩
  · rintro rfl
    exact hloc.isFound rfl
  · rintro rfl
    refine ⟨(hloc.notFound rfl).1, ?_⟩
    intro data
    have hnot := hloc.key_not_mem hord
    rw [Located.inorder_insert hloc hord]
    exact ordered_withRecord hord hnot

/-- The keys 30 and 35 in an index with one block. -/
theorem indexLookup_crowded :
    (∃ found w', indexLookup (crowdedEnv fun _ => false) 30 (.start crowdedIndex 0) =
        (.ok found, w') ∧ found = true ∧ ∃ p s pos, DescribesEntry crowdedTree w'.icx p s pos) ∧
    ∃ found w', indexLookup (crowdedEnv fun _ => false) 35 (.start crowdedIndex 0) =
        (.ok found, w') ∧ found = false ∧ ∃ p s pos, DescribesEntry crowdedTree w'.icx p s pos := by
  have hwf := crowdedIndex_wellFormed fun _ => false
  have hno : NoFaults (crowdedEnv fun _ => false) := fun _ _ => rfl
  obtain ⟨found, w', hrun, -, hiff, p, s, pos, hdesc, -⟩ :=
    indexLookup_correct hno hwf.holds.storesTree hwf.ordered (by decide) 30 0
  obtain ⟨found', w'', hrun', -, hiff', p', s', pos', hdesc', -⟩ :=
    indexLookup_correct hno hwf.holds.storesTree hwf.ordered (by decide) 35 0
  refine ⟨⟨found, w', hrun, hiff.mpr (by decide), p, s, pos, hdesc⟩,
    found', w'', hrun', ?_, p', s', pos', hdesc'⟩
  exact Bool.eq_false_iff.mpr fun htrue => absurd (hiff'.mp htrue) (by decide)

/-- The key 35 belongs before the fourth entry of the block, but the position on the second
level is still that of the fresh context. -/
theorem indexLookup_position_unset :
    (indexLookup (crowdedEnv fun _ => false) 35 (.start crowdedIndex 0)).1 = .ok false ∧
    (indexLookup (crowdedEnv fun _ => false) 35 (.start crowdedIndex 0)).2.icx.pindex = 1 ∧
    (indexLookup (crowdedEnv fun _ => false) 35 (.start crowdedIndex 0)).2.icx.entry = 3 ∧
    (indexLookup (crowdedEnv fun _ => false) 35 (.start crowdedIndex 0)).2.icx.parentPos 1 = 0 := by
  decide +kernel

end NtfsDxe
