import NtfsDxe.Index.Add

/-! # The tree that an index holds

An index holds a tree if its root and its blocks are the nodes of the tree, and
if the bitmap marks the addresses of these nodes. While an operation runs,
blocks outside of the tree can be marked as well.
-/

namespace NtfsDxe

open Foundation ItemTree Prog List Items

/-- The tree of the nodes of an index, addressed by block numbers. -/
abbrev IndexTree (K P : Type) := Items Nat (Record K P)

section

variable {K P : Type}

def nodeOf (shape : List (IndexEntry K P) × Option Nat) : IndexNode K P :=
  { entries := shape.1, last := shape.2, isNode := shape.2.isSome }

lemma vcnAt_nodeOf {s : IndexTree K P} (hpos : pos ≤ s.entries.length) :
    (nodeOf s.shape).vcnAt pos = (s.slot pos).map Prod.fst := by
  rw [slot_ref hpos, IndexNode.vcnAt, show (nodeOf s.shape).entries = s.entries from rfl]
  cases s.entries[pos]? <;> rfl

/-! ## Sizes -/

section Sizes

variable (env : IndexEnv K)

lemma entriesLength_append (es fs : List (IndexEntry K P)) :
    entriesLength env (es ++ fs) = entriesLength env es + entriesLength env fs := by
  induction es with
  | nil => exact (zero_add _).symm
  | cons e es ih => rw [cons_append, entriesLength, ih, entriesLength, add_assoc]

lemma entriesLength_take_le (k : Nat) (es : List (IndexEntry K P)) :
    entriesLength env (es.take k) ≤ entriesLength env es := by
  conv_rhs => rw [← take_append_drop k es, entriesLength_append]
  exact Nat.le_add_right _ _

lemma entriesLength_drop_le (k : Nat) (es : List (IndexEntry K P)) :
    entriesLength env (es.drop k) ≤ entriesLength env es := by
  conv_rhs => rw [← take_append_drop k es, entriesLength_append]
  exact Nat.le_add_left _ _

variable {env}

/-- A name has at most 255 characters. -/
def ShortNames (env : IndexEnv K) : Prop := ∀ k, env.nameLength k ≤ 255

lemma vcnSize_le (child : Option Nat) : vcnSize child ≤ 8 := by
  cases child with
  | none => exact Nat.zero_le 8
  | some v => exact le_refl 8

lemma vcnSize_congr (hab : a.isSome = b.isSome) : vcnSize a = vcnSize b := by
  cases a <;> cases b <;> first | rfl | cases hab

lemma entryLength_le (hnames : ShortNames env) (e : IndexEntry K P) : entryLength env e ≤ 600 := by
  have := hnames e.item.key
  have := vcnSize_le e.child
  unfold entryLength fileNameEntryLength
  omega

lemma entriesLength_le (hnames : ShortNames env) (es : List (IndexEntry K P)) :
    entriesLength env es ≤ 600 * es.length := by
  induction es with
  | nil => exact le_refl 0
  | cons e es ih =>
    have := entryLength_le hnames e
    rw [entriesLength, length_cons]
    omega

/-- A block with no room for another entry has enough entries to be split. -/
lemma three_le_of_full (hblock : 4096 ≤ env.blockSize) (hnames : ShortNames env)
    {node : IndexNode K P} (hx : x ≤ 608)
    (hfull : blockAllocated env < node.blockLength env + x) : 3 ≤ node.entries.length := by
  have hle := entriesLength_le hnames node.entries
  have := vcnSize_le node.last
  unfold IndexNode.blockLength IndexNode.size blockEntriesOffset blockAllocated at hfull
  omega

end Sizes

def StoredIndex.inUse (index : StoredIndex K P) (v : Nat) : Bool :=
  (index.bitmap.getD []).getD v false

/-- The root and the blocks of the index are the nodes of the tree `t`, whatever the sizes of
the entries are. -/
structure StoresTree (index : StoredIndex K P) (t : IndexTree K P) : Prop where
  root : index.root = nodeOf t.shape
  blocks : ∀ q ∈ t.stored, index.blocks q.1 = some (nodeOf q.2)
  refs_nodup : t.refs.Nodup
  proper : t.Proper

lemma StoresTree.node_stored {t s : IndexTree K P} (h : StoresTree index t)
    (hs : t.NodeAt (some v) s) : index.blocks v = some (nodeOf s.shape) :=
  h.blocks (v, s.shape) (mem_map_of_mem hs)

lemma StoresTree.unique {t t' : IndexTree K P} (h : StoresTree index t) (h' : StoresTree index t') :
    t = t' := by
  let nodes := fun v => (index.blocks v).map fun node => (node.entries, node.last)
  have hnodes : ∀ {u : IndexTree K P}, StoresTree index u → ∀ q ∈ u.stored,
      nodes q.1 = some q.2 := by
    intro u hu q hq
    change (index.blocks q.1).map _ = _
    rw [hu.blocks q hq]
    rfl
  have hroot := h.root.symm.trans h'.root
  exact eq_of_stored nodes
    (Prod.ext (congrArg IndexNode.entries hroot) (congrArg IndexNode.last hroot))
    (hnodes h) (hnodes h')

/-- The index holds the tree `t`; the blocks marked in the bitmap are those of the
tree and those in `extra`. -/
structure Holds (env : IndexEnv K) (index : StoredIndex K P) (extra : List Nat)
    (t : IndexTree K P) : Prop where
  root : index.root = nodeOf t.shape
  rootFits : index.root.rootLength env ≤ index.rootAllocated
  blocks : ∀ q ∈ t.stored, index.blocks q.1 = some (nodeOf q.2) ∧
    (nodeOf q.2).blockLength env ≤ blockAllocated env
  nodup : (t.refs ++ extra).Nodup
  inUse : ∀ v, index.inUse v = true ↔ v ∈ t.refs ++ extra
  proper : t.Proper

namespace Holds

variable {env : IndexEnv K} {index index' : StoredIndex K P} {t s s' : IndexTree K P}

section

variable (h : Holds env index extra t)
include h

lemma refs_nodup : t.refs.Nodup := List.Nodup.of_append_left h.nodup

lemma storesTree : StoresTree index t where
  root := h.root
  blocks := fun q hq => (h.blocks q hq).1
  refs_nodup := h.refs_nodup
  proper := h.proper

lemma not_mem_refs (hv : v ∈ extra) : v ∉ t.refs := fun hmem =>
  not_mem_of_nodup_append h.nodup hmem hv

/-- The order of the blocks outside of the tree does not matter. -/
lemma perm (hperm : extra.Perm extra') : Holds env index extra' t :=
  { h with
    nodup := ((hperm.append_left _).nodup_iff).mp h.nodup
    inUse := fun v => (h.inUse v).trans (hperm.append_left _).mem_iff }

lemma node_stored (hs : t.NodeAt (some v) s) : index.blocks v = some (nodeOf s.shape) :=
  (h.blocks (v, s.shape) (mem_map_of_mem hs)).1

lemma node_fits (hs : t.NodeAt (some v) s) :
    (nodeOf s.shape).blockLength env ≤ blockAllocated env :=
  (h.blocks (v, s.shape) (mem_map_of_mem hs)).2

lemma write_unused (hv : v ∉ t.refs) (node : IndexNode K P) :
    Holds env { index with blocks := Function.update index.blocks v (some node) } extra t := by
  refine { h with blocks := fun q hq => ?_ }
  have hne : q.1 ≠ v := by
    rintro rfl
    exact hv (by rw [refs_eq_stored]; exact mem_map_of_mem hq)
  exact ⟨(Function.update_of_ne hne _ _).trans (h.blocks q hq).1, (h.blocks q hq).2⟩

/-- Another bitmap that marks other blocks outside of the tree. -/
lemma rebit (hnodup : (t.refs ++ extra').Nodup)
    (hin : ∀ v, { index with bitmap := bitmap }.inUse v = true ↔ v ∈ t.refs ++ extra') :
    Holds env { index with bitmap := bitmap } extra' t :=
  { h with nodup := hnodup, inUse := hin }

/-- The index root can be given more room. -/
lemma resize (hsize : index.root.rootLength env ≤ size) :
    Holds env { index with rootAllocated := size } extra t :=
  { h with rootFits := hsize }

/-- Exchanging a node: what has to be stored for it, and what has to be left alone. -/
lemma replace (hs : t.NodeAt p s) (hroot : index'.root = nodeOf (replaceAt p s' t).shape)
    (hrootFits : index'.root.rootLength env ≤ index'.rootAllocated)
    (hnew : ∀ q ∈ self p s' ++ s'.stored, index'.blocks q.1 = some (nodeOf q.2) ∧
      (nodeOf q.2).blockLength env ≤ blockAllocated env)
    (hframe : ∀ v, v ∉ (self p s ++ s.stored).map Prod.fst → v ∉ extra →
      index'.blocks v = index.blocks v)
    (hrefs : (s'.refs ++ extra').Perm (s.refs ++ extra)) (hbitmap : index'.bitmap = index.bitmap)
    (hproper : s'.Proper) : Holds env index' extra' (replaceAt p s' t) := by
  have hperm := refs_replaceAt h.refs_nodup hs hrefs
  refine ⟨hroot, hrootFits, fun q hq => ?_, hperm.nodup_iff.mpr h.nodup, fun v => ?_,
    proper_replaceAt h.proper hproper⟩
  · rcases mem_stored_replaceAt h.refs_nodup hs hq with hin | ⟨hin, hnot⟩
    · exact hnew q hin
    · have hextra : q.1 ∉ extra := not_mem_of_nodup_append h.nodup
        (by rw [refs_eq_stored]; exact mem_map_of_mem hin)
      rw [hframe q.1 hnot hextra]
      exact h.blocks q hin
  · rw [hperm.mem_iff, ← h.inUse v]
    unfold StoredIndex.inUse
    rw [hbitmap]

end

end Holds

end

end NtfsDxe
