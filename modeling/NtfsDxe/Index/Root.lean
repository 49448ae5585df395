import NtfsDxe.Index.Rules

/-! # Making room in the index root

If the mft record is full, the entries of the index root are moved to a new block,
which becomes the only child of the root. The operations here succeed only if
no request is refused.
-/

namespace NtfsDxe

open Foundation ItemTree Prog List Items

variable {K P : Type} {env : IndexEnv K} {w : IndexWorld K P} {t : IndexTree K P}

lemma Holds.nodify (h : Holds env w.index (v :: extra) t)
    (hfits : (nodeOf t.shape).blockLength env ≤ blockAllocated env)
    (hroot : index.root = { entries := [], last := some v, isNode := true })
    (hallocated : index.rootAllocated = 40)
    (hblocks : index.blocks = Function.update w.index.blocks v (some (nodeOf t.shape)))
    (hbitmap : index.bitmap = w.index.bitmap) : Holds env index extra (lastChild v t) := by
  have hperm : (t.refs ++ v :: extra).Perm (v :: (t.refs ++ extra)) := perm_middle
  have hv := h.not_mem_refs mem_cons_self
  refine ⟨hroot, ?_, ?_, hperm.nodup_iff.mp h.nodup, fun u => ?_, ⟨true, rfl, h.proper⟩⟩
  · rw [hroot, hallocated]
    simp [IndexNode.rootLength, IndexNode.size, entriesLength, vcnSize]
  · intro q hq
    rw [hblocks]
    rcases mem_cons.mp hq with rfl | hq
    · exact ⟨Function.update_self _ _ _, hfits⟩
    · exact (h.write_unused hv (nodeOf t.shape)).blocks q hq
  · refine Iff.trans ?_ ((h.inUse u).trans hperm.mem_iff)
    unfold StoredIndex.inUse
    rw [hbitmap]

lemma irToBlock_spec (h : Holds env w.index (v :: extra) t) :
    wp (irToBlock env v)
      (fun _ w' => Holds env w'.index extra (lastChild v t) ∧ w'.icx = w.icx ∧
        w'.refused = w.refused)
      (fun _ _ => True) w := by
  simp only [irToBlock, wp_bind, wp_request, wp_reads, wp_ite, wp_fail]
  refine ⟨fun _ => trivial, fun _ => ⟨fun _ => trivial, fun _ => ?_⟩⟩
  split
  · trivial
  · next hroom =>
      have hfits : (nodeOf t.shape).blockLength env ≤ blockAllocated env := by
        rw [← h.root]
        exact le_of_not_gt hroom
      refine wp_ibWrite (fun _ _ => trivial) (fun _ => trivial) fun _ _ => ?_
      simp only [irNill, wp_bind, wp_request, wp_reads]
      refine ⟨fun _ => trivial, fun _ => ?_⟩
      split
      · trivial
      · refine ⟨h.nodify hfits rfl rfl ?_ rfl, rfl, rfl⟩
        rw [← h.root]
        rfl

section

variable (h : Holds env w.index extra t)
include h

lemma Holds.addBitmap (hnone : w.index.bitmap = none) (n : Nat) :
    Holds env { w.index with bitmap := some (replicate n false) } extra t := by
  refine h.rebit h.nodup fun u => ?_
  rw [← h.inUse u, StoredIndex.inUse, StoredIndex.inUse, hnone]
  change (replicate n false).getD u false = true ↔ ([] : List Bool).getD u false = true
  rw [getD_eq_getElem?_getD, getElem?_replicate]
  split <;> simp

/-- Adding the attributes for blocks leaves the tree as it is. -/
lemma iaAdd_spec :
    wp (iaAdd env)
      (fun _ w' => Holds env w'.index extra t ∧ w'.icx.ibDirty = w.icx.ibDirty ∧
        w'.refused = w.refused)
      (fun _ _ => True) w := by
  have hbitmap : wp (ibmAdd env)
      (fun _ w' => Holds env w'.index extra t ∧ w'.icx = w.icx ∧ w'.refused = w.refused)
      (fun _ _ => True) w := by
    simp only [ibmAdd, wp_bind, wp_reads, wp_ite, wp_request, wp_pure]
    split
    · next hnone =>
        have hnone' := Option.isNone_iff_eq_none.mp hnone
        exact ⟨fun _ => trivial, fun _ => ⟨h.addBitmap hnone' 64, rfl, rfl⟩⟩
    · exact ⟨h, trivial, trivial⟩
  rw [iaAdd]
  refine wp_then hbitmap fun _ w1 h1 => ?_
  have halloc : Holds env { w1.index with hasAllocation := true } extra t :=
    ⟨h1.1.root, h1.1.rootFits, h1.1.blocks, h1.1.nodup, h1.1.inUse, h1.1.proper⟩
  have hdirty : w1.icx.ibDirty = w.icx.ibDirty := by rw [h1.2.1]
  simp only [allocationAdd, iaOpen, wp_bind, wp_reads, wp_ite, wp_request, wp_modifyIndex, wp_pure,
    wp_setHeld]
  split
  · exact ⟨fun _ => trivial, fun _ => ⟨fun _ => trivial, fun _ => ⟨halloc, hdirty, h1.2.2⟩⟩⟩
  · exact ⟨fun _ => trivial, fun _ => ⟨h1.1, hdirty, h1.2.2⟩⟩

/-- The index holds the tree whose root was moved to a block. -/
def Nodified (env : IndexEnv K) (w : IndexWorld K P) (extra : List Nat) (t : IndexTree K P)
    (w' : IndexWorld K P) : Prop :=
  (∃ v, Holds env w'.index extra (lastChild v t)) ∧ w'.icx.ibDirty = w.icx.ibDirty ∧
    w'.refused = w.refused

lemma irToFreeBlock_spec :
    wp (irToFreeBlock env) (fun _ w' => Nodified env w extra t w') (fun _ _ => True) w := by
  rw [irToFreeBlock]
  refine wp_then (ibmGetFree_spec h) fun v w1 hfree => ?_
  rw [wp_bind, wp_attempt]
  refine wp_mono (irToBlock_spec hfree.1) (fun _ w2 hdone => ?_) fun e w2 _ => ?_
  · exact ⟨⟨v, hdone.1⟩, by rw [hdone.2.1, hfree.2.1], hdone.2.2.trans hfree.2.2⟩
  · rw [wp_bind]
    exact wp_of_forall (fun _ _ => trivial) fun _ _ => trivial

/-- Moving the entries of the root to a block. -/
lemma irReparent_spec :
    wp (irReparent env) (fun _ w' => Nodified env w extra t w') (fun _ _ => True) w := by
  simp only [irReparent, wp_bind, wp_request, wp_reads, wp_ite]
  refine ⟨fun _ => trivial, fun _ => ?_⟩
  split
  · refine wp_mono (iaAdd_spec (w := w.tick) h) (fun _ w1 h1 => ?_) fun _ _ _ => trivial
    refine wp_mono (irToFreeBlock_spec h1.1) (fun _ w2 h2 => ?_) fun _ _ _ => trivial
    exact ⟨h2.1, h2.2.1.trans h1.2.1, h2.2.2.trans h1.2.2⟩
  · exact irToFreeBlock_spec (w := w.tick) h

end

/-- Making room in the root: it gets the size, or its entries move to a block. -/
lemma irMakeSpace_spec (h : Holds env w.index extra t) :
    wp (irMakeSpace env size)
      (fun r w' => match r with
        | .ok => w'.index = { w.index with rootAllocated := size } ∧ w'.icx = w.icx ∧
            w'.refused = w.refused
        | .keepSearching => Nodified env w extra t w')
      (fun _ _ => True) w := by
  simp only [irMakeSpace, irTruncate, wp_bind, wp_request, wp_reads, wp_modify]
  refine ⟨fun _ => trivial, fun _ => ?_⟩
  cases env.truncate size w.tick.clock with
  | ok =>
    simp only [wp_bind, wp_request, wp_modifyIndex, wp_pure, if_true]
    exact ⟨fun _ => trivial, fun _ => ⟨rfl, rfl, rfl⟩⟩
  | filledMft =>
    simp only [wp_pure, wp_bind, Bool.false_eq_true, if_false]
    exact irReparent_spec (w := { w.tick with clock := w.tick.clock + 1 }) h
  | error => trivial

end NtfsDxe
