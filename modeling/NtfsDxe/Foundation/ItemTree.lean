import Mathlib.Data.List.Nodup

/-! # Search trees in addressed nodes

A node is a sequence of entries and an end mark; each of them may be preceded by
a child, which is a node stored under an address. A tree is the item sequence
of its root. The order of the entries in the whole tree is its inorder
sequence, so that it is a search tree if this sequence is increasing.
-/

namespace Foundation.ItemTree

open List

/-- The items of a node whose children are addressed by `V`. -/
inductive Items (V E : Type*) where
  | last
  | lastChild (v : V) (child : Items V E)
  | cons (e : E) (rest : Items V E)
  | consChild (v : V) (child : Items V E) (e : E) (rest : Items V E)

/-- An entry as it is stored in a node. -/
structure Entry (V E : Type*) where
  item : E
  child : Option V
  deriving DecidableEq

namespace Items

variable {V E : Type*}

def inorder : Items V E → List E
  | last => []
  | lastChild _ c => c.inorder
  | cons e r => e :: r.inorder
  | consChild _ c e r => c.inorder ++ e :: r.inorder

/-- The nodes below the root, with their addresses. -/
def subtrees : Items V E → List (V × Items V E)
  | last => []
  | lastChild v c => (v, c) :: c.subtrees
  | cons _ r => r.subtrees
  | consChild v c _ r => (v, c) :: (c.subtrees ++ r.subtrees)

/-- The addresses of the nodes below the root. -/
def refs (t : Items V E) : List V := t.subtrees.map Prod.fst

/-- The entries of the root node as they are stored. -/
def entries : Items V E → List (Entry V E)
  | last => []
  | lastChild _ _ => []
  | cons e r => ⟨e, none⟩ :: r.entries
  | consChild v _ e r => ⟨e, some v⟩ :: r.entries

/-- The address of the child before the end mark. -/
def lastRef : Items V E → Option V
  | last => none
  | lastChild v _ => some v
  | cons _ r => r.lastRef
  | consChild _ _ _ r => r.lastRef

/-- What is stored of a node: its entries and the address of its last child. -/
def shape (t : Items V E) : List (Entry V E) × Option V := (t.entries, t.lastRef)

/-- The nodes below the root as they are stored. -/
def stored (t : Items V E) : List (V × List (Entry V E) × Option V) :=
  t.subtrees.map (Prod.map id shape)

/-- The child before the entry at a position, or before the end mark. -/
def slot : Items V E → Nat → Option (V × Items V E)
  | lastChild v c, 0 => some (v, c)
  | consChild v c _ _, 0 => some (v, c)
  | cons _ r, n + 1 => r.slot n
  | consChild _ _ _ r, n + 1 => r.slot n
  | _, _ => none

/-- Either all the items of a node have children, or none of them has one, and
so for the nodes below. -/
def Uniform : Bool → Items V E → Prop
  | inner, last => inner = false
  | inner, cons _ r => inner = false ∧ r.Uniform inner
  | inner, lastChild _ c => inner = true ∧ ∃ b, c.Uniform b
  | inner, consChild _ c _ r => inner = true ∧ (∃ b, c.Uniform b) ∧ r.Uniform inner

def Proper (c : Items V E) : Prop := ∃ inner, c.Uniform inner

/-- No leaf below the root is empty. -/
def Filled (t : Items V E) : Prop := ∀ q ∈ t.stored, q.2 ≠ ([], none)

@[simp] lemma refs_last : (last : Items V E).refs = [] := rfl

variable (v : V) (c : Items V E) (e : E) (r : Items V E)

@[simp] lemma refs_lastChild : (lastChild v c).refs = v :: c.refs := rfl

@[simp] lemma refs_cons : (cons e r).refs = r.refs := rfl

@[simp] lemma refs_consChild : (consChild v c e r).refs = v :: (c.refs ++ r.refs) := by
  simp [refs, subtrees]

@[simp] lemma stored_last : (last : Items V E).stored = [] := rfl

@[simp] lemma stored_lastChild : (lastChild v c).stored = (v, c.shape) :: c.stored := rfl

@[simp] lemma stored_cons : (cons e r).stored = r.stored := rfl

@[simp] lemma stored_consChild : (consChild v c e r).stored = (v, c.shape) ::
    (c.stored ++ r.stored) := by
  simp [stored, subtrees]

variable {s t d c : Items V E} {v u : V} {i : Nat} {inner : Bool}

lemma mem_inorder_of_entry {e : Entry V E} (he : e ∈ s.entries) : e.item ∈ s.inorder := by
  induction s with
  | last => cases he
  | lastChild u d _ => cases he
  | cons x s ih =>
    rcases mem_cons.mp he with rfl | hrest
    · exact mem_cons_self ..
    · exact mem_cons_of_mem _ (ih hrest)
  | consChild u d x s _ ih =>
    apply mem_append_right
    rcases mem_cons.mp he with rfl | hrest
    · exact mem_cons_self ..
    · exact mem_cons_of_mem _ (ih hrest)

lemma refs_eq_stored (t : Items V E) : t.refs = t.stored.map Prod.fst := by
  rw [stored, map_map]
  rfl

lemma mem_refs : v ∈ t.refs ↔ ∃ c, (v, c) ∈ t.subtrees := by
  simp [refs]

/-- The nodes below a node are nodes of the tree. -/
lemma subtrees_trans (hd : (u, d) ∈ t.subtrees) : d.subtrees ⊆ t.subtrees := by
  induction t with
  | last => cases hd
  | lastChild v c ih =>
    rcases mem_cons.mp hd with heq | hd
    · cases heq
      exact subset_cons_self _ _
    · exact List.Subset.trans (ih hd) (subset_cons_self _ _)
  | cons e r ih => exact ih hd
  | consChild v c e r ihc ihr =>
    rcases mem_cons.mp hd with heq | hd
    · cases heq
      exact List.Subset.trans (subset_append_left _ _) (subset_cons_self _ _)
    · refine List.Subset.trans ?_ (subset_cons_self _ _)
      rcases mem_append.mp hd with hd | hd
      · exact List.Subset.trans (ihc hd) (subset_append_left _ _)
      · exact List.Subset.trans (ihr hd) (subset_append_right _ _)

lemma refs_subset (hd : (u, d) ∈ t.subtrees) : d.refs ⊆ t.refs :=
  map_subset Prod.fst (subtrees_trans hd)

/-- Each address belongs to one node. -/
lemma subtree_unique (hnodup : t.refs.Nodup) (hc : (v, c) ∈ t.subtrees)
    (hd : (v, d) ∈ t.subtrees) : c = d := by
  have hinj := inj_on_of_nodup_map hnodup hc hd rfl
  exact congrArg Prod.snd hinj

def children (shape : List (Entry V E) × Option V) : List V :=
  shape.1.filterMap Entry.child ++ shape.2.toList

/-- An address is in the root or in a node of the tree. -/
lemma refs_children (hv : v ∈ t.refs) :
    v ∈ children t.shape ∨ ∃ q ∈ t.stored, v ∈ children q.2 := by
  induction t with
  | last => cases hv
  | lastChild u c ih =>
    rcases mem_cons.mp hv with rfl | hv
    · exact .inl (by simp [children, shape, entries, lastRef])
    · refine .inr ?_
      rcases ih hv with h | ⟨q, hq, h⟩
      · exact ⟨(u, c.shape), mem_cons_self, h⟩
      · exact ⟨q, mem_cons_of_mem _ hq, h⟩
  | cons e r ih => exact (ih hv).imp_left fun h => by simpa [children, shape, entries,
    lastRef] using h
  | consChild u c e r ihc ihr =>
    rw [refs_consChild] at hv
    rw [stored_consChild]
    rcases mem_cons.mp hv with rfl | hv
    · exact .inl (by simp [children, shape, entries, lastRef])
    · rcases mem_append.mp hv with hv | hv
      · refine .inr ?_
        rcases ihc hv with h | ⟨q, hq, h⟩
        · exact ⟨(u, c.shape), mem_cons_self, h⟩
        · exact ⟨q, mem_cons_of_mem _ (mem_append_left _ hq), h⟩
      · rcases ihr hv with h | ⟨q, hq, h⟩
        · refine .inl ?_
          exact mem_cons_of_mem _ h
        · exact .inr ⟨q, mem_cons_of_mem _ (mem_append_right _ hq), h⟩

lemma slot_induction {motive : (s : Items V E) → (i : Nat) → s.slot i = some (v, c) → Prop}
    (atLast : motive (lastChild v c) 0 rfl) (atEntry : ∀ e r, motive (consChild v c e r) 0 rfl)
    (cons : ∀ e r n (h : r.slot n = some (v, c)), motive r n h → motive (cons e r) (n + 1) h)
    (consChild : ∀ u d e r n (h : r.slot n = some (v, c)), motive r n h →
      motive (consChild u d e r) (n + 1) h)
    (s : Items V E) (i : Nat) (hslot : s.slot i = some (v, c)) : motive s i hslot := by
  induction s generalizing i with
  | last => cases i <;> cases hslot
  | lastChild u d _ =>
    cases i with
    | zero =>
      cases hslot
      exact atLast
    | succ n => cases hslot
  | cons e r ih =>
    cases i with
    | zero => cases hslot
    | succ n => exact cons e r n hslot (ih n hslot)
  | consChild u d e r _ ih =>
    cases i with
    | zero =>
      cases hslot
      exact atEntry e r
    | succ n => exact consChild u d e r n hslot (ih n hslot)

/-- A child in a slot is a node of the tree. -/
lemma slot_mem (hslot : s.slot i = some (v, c)) : (v, c) ∈ s.subtrees := by
  induction s, i, hslot using slot_induction with
  | atLast => exact mem_cons_self
  | atEntry e r => exact mem_cons_self
  | cons e r n _ ih => exact ih
  | consChild u d e r n _ ih => exact mem_cons_of_mem _ (mem_append_right _ ih)

lemma slot_le (hslot : s.slot i = some (v, c)) : i ≤ s.entries.length := by
  induction s, i, hslot using slot_induction with
  | atLast => exact Nat.le_refl 0
  | atEntry e r => exact Nat.zero_le _
  | cons e r n _ ih => exact Nat.succ_le_succ ih
  | consChild u d e r n _ ih => exact Nat.succ_le_succ ih

lemma slot_ref (hpos : i ≤ s.entries.length) :
    (s.slot i).map Prod.fst =
      match s.entries[i]? with
      | some e => e.child
      | none => s.lastRef := by
  induction s generalizing i with
  | last => cases i <;> rfl
  | lastChild u d _ => cases Nat.le_zero.mp hpos; rfl
  | cons e s ih =>
    cases i with
    | zero => rfl
    | succ n => exact ih (Nat.le_of_succ_le_succ hpos)
  | consChild u d e s _ ih =>
    cases i with
    | zero => rfl
    | succ n => exact ih (Nat.le_of_succ_le_succ hpos)

/-- The inner nodes of a uniform tree have a child at every position. -/
lemma Uniform.slot_isSome (hs : s.Uniform inner) (hpos : i ≤ s.entries.length) :
    (s.slot i).isSome = inner := by
  induction s generalizing i with
  | last => cases i <;> exact hs.symm
  | lastChild u d _ => cases Nat.le_zero.mp hpos; exact hs.1.symm
  | cons e s ih =>
    cases i with
    | zero => exact hs.1.symm
    | succ n => exact ih hs.2 (Nat.le_of_succ_le_succ hpos)
  | consChild u d e s _ ih =>
    cases i with
    | zero => exact hs.1.symm
    | succ n => exact ih hs.2.2 (Nat.le_of_succ_le_succ hpos)

/-- A node with a child is an inner node. -/
lemma Proper.uniform_of_slot (hs : s.Proper) (hslot : s.slot i = some q) : s.Uniform true := by
  obtain ⟨inner, hu⟩ := hs
  have h := hu.slot_isSome (slot_le hslot)
  rw [hslot] at h
  cases h
  exact hu

lemma Uniform.lastRef_isSome (hs : s.Uniform inner) : s.lastRef.isSome = inner := by
  induction s with
  | last => exact hs.symm
  | lastChild u d _ => exact hs.1.symm
  | cons e s ih => exact ih hs.2
  | consChild u d e s _ ih => exact ih hs.2.2

/-- Only the empty tree has an empty root without a child. -/
lemma eq_last_of_shape (ht : t.shape = ([], none)) : t = last := by
  cases t with
  | last => rfl
  | lastChild v c => cases congrArg Prod.snd ht
  | cons e r => cases congrArg Prod.fst ht
  | consChild v c e r => cases congrArg Prod.fst ht

/-- A tree is determined by its root and by what is stored under the addresses. -/
lemma eq_of_stored (nodes : V → Option (List (Entry V E) × Option V)) {s t : Items V E}
    (hshape : s.shape = t.shape) (hs : ∀ q ∈ s.stored, nodes q.1 = some q.2)
    (ht : ∀ q ∈ t.stored, nodes q.1 = some q.2) : s = t := by
  have hchild : ∀ {c d : Items V E} {v : V}, nodes v = some c.shape → nodes v = some d.shape →
      c.shape = d.shape := fun hc hd => Option.some.inj (hc.symm.trans hd)
  induction s generalizing t with
  | last => exact (eq_last_of_shape hshape.symm).symm
  | lastChild v c ih =>
    cases t with
    | lastChild u d =>
      cases Option.some.inj (congrArg Prod.snd hshape)
      rw [stored_lastChild, forall_mem_cons] at hs ht
      rw [ih (hchild hs.1 ht.1) hs.2 ht.2]
    | last => cases congrArg Prod.snd hshape
    | cons e r => cases congrArg Prod.fst hshape
    | consChild u d e r => cases congrArg Prod.fst hshape
  | cons e r ih =>
    cases t with
    | cons e' r' =>
      obtain ⟨hhead, htail⟩ := List.cons.inj (congrArg Prod.fst hshape)
      have hlast : r.lastRef = r'.lastRef := congrArg Prod.snd hshape
      cases hhead
      rw [ih (Prod.ext htail hlast) hs ht]
    | last => cases congrArg Prod.fst hshape
    | lastChild u d => cases congrArg Prod.fst hshape
    | consChild u d e' r' => cases (List.cons.inj (congrArg Prod.fst hshape)).1
  | consChild v c e r ihc ih =>
    cases t with
    | consChild u d e' r' =>
      obtain ⟨hhead, htail⟩ := List.cons.inj (congrArg Prod.fst hshape)
      have hlast : r.lastRef = r'.lastRef := congrArg Prod.snd hshape
      cases hhead
      rw [stored_consChild, forall_mem_cons, forall_mem_append] at hs ht
      rw [ihc (hchild hs.1 ht.1) hs.2.1 ht.2.1, ih (Prod.ext htail hlast) hs.2.2 ht.2.2]
    | last => cases congrArg Prod.fst hshape
    | lastChild u d => cases congrArg Prod.fst hshape
    | cons e' r' => cases (List.cons.inj (congrArg Prod.fst hshape)).1
/-- A new root above a tree that is not empty. -/
lemma Filled.lastChild (ht : t.Filled) (hne : t ≠ last) (v : V) : (lastChild v t).Filled := by
  intro q hq
  rcases mem_cons.mp hq with rfl | hq
  · exact fun h => hne (eq_last_of_shape h)
  · exact ht q hq

/-- The number of levels below the root. -/
def height : Items V E → Nat
  | last => 0
  | lastChild _ c => c.height + 1
  | cons _ r => r.height
  | consChild _ c _ r => max (c.height + 1) r.height

/-- The nodes below the root of a uniform tree are proper. -/
lemma Uniform.proper (ht : t.Uniform inner) (hc : (v, c) ∈ t.subtrees) : c.Proper := by
  induction t generalizing inner with
  | last => cases hc
  | lastChild u d ih =>
    obtain ⟨b, hd⟩ := ht.2
    rcases mem_cons.mp hc with heq | hc
    · cases heq
      exact ⟨b, hd⟩
    · exact ih hd hc
  | cons e r ih => exact ih ht.2 hc
  | consChild u d e r ihd ihr =>
    obtain ⟨b, hd⟩ := ht.2.1
    rcases mem_cons.mp hc with heq | hc
    · cases heq
      exact ⟨b, hd⟩
    · rcases mem_append.mp hc with hc | hc
      · exact ihd hd hc
      · exact ihr ht.2.2 hc

lemma not_mem_of_nodup_append {xs ys : List V} (hnodup : (xs ++ ys).Nodup) (hv : v ∈ xs) : v ∉ ys :=
  fun h => (disjoint_of_nodup_append hnodup) hv h

/-! ## Exchanging a node -/

section Exchange

/-- The tree in which the node at address `v` has the items `s`. -/
def setNode [DecidableEq V] (v : V) (s : Items V E) : Items V E → Items V E
  | last => last
  | lastChild u c => if u = v then lastChild u s else lastChild u (setNode v s c)
  | cons e r => cons e (setNode v s r)
  | consChild u c e r =>
    if u = v then consChild u s e r else consChild u (setNode v s c) e (setNode v s r)

variable [DecidableEq V]

@[simp] lemma entries_setNode : (setNode v s t).entries = t.entries := by
  induction t with
  | last => rfl
  | lastChild u c _ =>
    rw [setNode]
    split <;> rfl
  | cons e r ih => rw [setNode, entries, entries, ih]
  | consChild u c e r _ ih =>
    rw [setNode]
    split
    · rfl
    · rw [entries, entries, ih]

@[simp] lemma lastRef_setNode : (setNode v s t).lastRef = t.lastRef := by
  induction t with
  | last => rfl
  | lastChild u c _ =>
    rw [setNode]
    split <;> rfl
  | cons e r ih => rw [setNode, lastRef, lastRef, ih]
  | consChild u c e r _ ih =>
    rw [setNode]
    split
    · rfl
    · rw [lastRef, lastRef, ih]

@[simp] lemma shape_setNode (v : V) : (setNode v s t).shape = t.shape :=
  Prod.ext entries_setNode lastRef_setNode

lemma setNode_of_not_mem (hv : v ∉ t.refs) : setNode v s t = t := by
  induction t with
  | last => rfl
  | lastChild u c ih =>
    rw [refs_lastChild, mem_cons, not_or] at hv
    rw [setNode, if_neg (Ne.symm hv.1), ih hv.2]
  | cons e r ih => rw [setNode, ih hv]
  | consChild u c e r ihc ihr =>
    rw [refs_consChild, mem_cons, mem_append, not_or, not_or] at hv
    rw [setNode, if_neg (Ne.symm hv.1), ihc hv.2.1, ihr hv.2.2]

/-- Induction along the nodes above the one at an address: a tree, and what exchanging the node
does to it. -/
lemma setNode_induction {motive : Items V E → (Items V E → Items V E) → Prop}
    (atLast : motive (lastChild v s) (lastChild v))
    (atEntry : ∀ e r, motive (consChild v s e r) fun s' => consChild v s' e r)
    (inLast : ∀ u c f, motive c f → (∀ s', (f s').shape = c.shape) →
      motive (lastChild u c) fun s' => lastChild u (f s'))
    (inChild : ∀ u c e r f, motive c f → (∀ s', (f s').shape = c.shape) →
      motive (consChild u c e r) fun s' => consChild u (f s') e r)
    (cons : ∀ e r f, motive r f → motive (cons e r) fun s' => cons e (f s'))
    (consChild : ∀ u c e r f, motive r f →
      motive (consChild u c e r) fun s' => consChild u c e (f s'))
    (hnodup : t.refs.Nodup) (hs : (v, s) ∈ t.subtrees) : motive t fun s' => setNode v s' t := by
  induction t with
  | last => cases hs
  | lastChild u c ih =>
    rw [refs_lastChild, nodup_cons] at hnodup
    rcases mem_cons.mp hs with heq | hs
    · cases heq
      simpa only [setNode, if_pos] using atLast
    · have hne : u ≠ v := fun h => hnodup.1 (h ▸ mem_refs.mpr ⟨s, hs⟩)
      simpa only [setNode, if_neg hne] using
        inLast u c _ (ih hnodup.2 hs) fun s' => shape_setNode v
  | cons e r ih => exact cons e r _ (ih hnodup hs)
  | consChild u c e r ihc ihr =>
    rw [refs_consChild, nodup_cons, mem_append, not_or] at hnodup
    obtain ⟨⟨huc, hur⟩, hboth⟩ := hnodup
    rcases mem_cons.mp hs with heq | hs
    · cases heq
      simpa only [setNode, if_pos] using atEntry e r
    · rcases mem_append.mp hs with hs | hs
      · have hmem : v ∈ c.refs := mem_refs.mpr ⟨s, hs⟩
        have hne : u ≠ v := fun h => huc (h ▸ hmem)
        simpa only [setNode, if_neg hne,
          setNode_of_not_mem (not_mem_of_nodup_append hboth hmem)] using
          inChild u c e r _ (ihc hboth.of_append_left hs) fun s' => shape_setNode v
      · have hmem : v ∈ r.refs := mem_refs.mpr ⟨s, hs⟩
        have hne : u ≠ v := fun h => hur (h ▸ hmem)
        have hnot : v ∉ c.refs := fun h => not_mem_of_nodup_append hboth h hmem
        simpa only [setNode, if_neg hne, setNode_of_not_mem hnot] using
          consChild u c e r _ (ihr hboth.of_append_right hs)

/-- Exchanging a node exchanges its part of the inorder sequence. -/
lemma inorder_setNode (hnodup : t.refs.Nodup) (hs : (v, s) ∈ t.subtrees) :
    ∃ pre post, t.inorder = pre ++ s.inorder ++ post ∧
      ∀ s', (setNode v s' t).inorder = pre ++ s'.inorder ++ post := by
  refine setNode_induction (motive := fun t f => ∃ pre post,
    t.inorder = pre ++ s.inorder ++ post ∧ ∀ s', (f s').inorder = pre ++ s'.inorder ++ post)
    ?_ ?_ ?_ ?_ ?_ ?_ hnodup hs
  · exact ⟨[], [], by simp [inorder], fun s' => by simp [inorder]⟩
  · exact fun e r => ⟨[], e :: r.inorder, by simp [inorder], fun s' => by simp [inorder]⟩
  · exact fun u c f ih _ => ih
  · rintro u c e r f ⟨pre, post, hold, hnew⟩ -
    exact ⟨pre, post ++ e :: r.inorder, by simp [inorder, hold], fun s' => by simp [inorder, hnew]⟩
  · rintro e r f ⟨pre, post, hold, hnew⟩
    exact ⟨e :: pre, post, by simp [inorder, hold], fun s' => by simp [inorder, hnew]⟩
  · rintro u c e r f ⟨pre, post, hold, hnew⟩
    exact ⟨c.inorder ++ e :: pre, post, by simp [inorder, hold], fun s' => by simp [inorder, hnew]⟩

/-- A node before the others, and nodes between them. -/
lemma perm_behind (bs : List α) (h : xs.Perm (b :: ys ++ zs)) :
    (a :: (bs ++ xs)).Perm (b :: ys ++ a :: (bs ++ zs)) := by
  refine ((h.append_left bs).cons a).trans ?_
  refine List.Perm.trans (List.Perm.cons _ ?_) perm_middle.symm
  exact perm_append_comm_assoc _ _ _

/-- Exchanging a node exchanges it and the nodes below it; all others are stored
as before. -/
lemma stored_setNode (hnodup : t.refs.Nodup) (hs : (v, s) ∈ t.subtrees) :
    ∃ others, t.stored.Perm ((v, s.shape) :: s.stored ++ others) ∧
      ∀ s', (setNode v s' t).stored.Perm ((v, s'.shape) :: s'.stored ++ others) := by
  refine setNode_induction (motive := fun t f => ∃ others,
    t.stored.Perm ((v, s.shape) :: s.stored ++ others) ∧
      ∀ s', (f s').stored.Perm ((v, s'.shape) :: s'.stored ++ others))
    ?_ ?_ ?_ ?_ ?_ ?_ hnodup hs
  · exact ⟨[], by simp, fun s' => by simp⟩
  · exact fun e r => ⟨r.stored, by simp, fun s' => by simp⟩
  · rintro u c f ⟨others, hold, hnew⟩ hshape
    refine ⟨(u, c.shape) :: others, perm_behind [] hold, fun s' => ?_⟩
    rw [stored_lastChild, hshape]
    exact perm_behind [] (hnew s')
  · rintro u c e r f ⟨others, hold, hnew⟩ hshape
    refine ⟨(u, c.shape) :: (others ++ r.stored), ?_, fun s' => ?_⟩
    · rw [stored_consChild]
      exact perm_behind [] (by simpa using hold.append_right r.stored)
    · rw [stored_consChild, hshape]
      exact perm_behind [] (by simpa using (hnew s').append_right r.stored)
  · exact fun e r f ih => ih
  · rintro u c e r f ⟨others, hold, hnew⟩
    refine ⟨(u, c.shape) :: (c.stored ++ others), ?_, fun s' => ?_⟩
    · rw [stored_consChild]
      exact perm_behind _ hold
    · rw [stored_consChild]
      exact perm_behind _ (hnew s')

/-- A node below another one can be exchanged there. -/
lemma setNode_below {s' : Items V E} (hnodup : t.refs.Nodup) (hs : (u, s) ∈ t.subtrees)
    (hv : v ∈ s.refs) : setNode v s' t = setNode u (setNode v s' s) t := by
  have hvt : v ∈ t.refs := refs_subset hs hv
  induction t with
  | last => cases hs
  | lastChild w c ih =>
    rw [refs_lastChild, nodup_cons] at hnodup
    rcases mem_cons.mp hs with heq | hs
    · cases heq
      have hne : u ≠ v := fun h => hnodup.1 (h ▸ hv)
      rw [setNode, if_neg hne, setNode, if_pos rfl]
    · have hwv : w ≠ v := fun h => hnodup.1 (h ▸ refs_subset hs hv)
      have hwu : w ≠ u := fun h => hnodup.1 (h ▸ mem_refs.mpr ⟨s, hs⟩)
      rw [setNode, if_neg hwv, setNode, if_neg hwu, ih hnodup.2 hs (refs_subset hs hv)]
  | cons e r ih => rw [setNode, setNode, ih hnodup hs hvt]
  | consChild w c e r ihc ihr =>
    rw [refs_consChild, nodup_cons, mem_append, not_or] at hnodup
    obtain ⟨⟨hwc, hwr⟩, hboth⟩ := hnodup
    rcases mem_cons.mp hs with heq | hs
    · cases heq
      have hne : u ≠ v := fun h => hwc (h ▸ hv)
      have hnot := not_mem_of_nodup_append hboth hv
      rw [setNode, if_neg hne, setNode, if_pos rfl, setNode_of_not_mem hnot]
    · rcases mem_append.mp hs with hs | hs
      · have hvc : v ∈ c.refs := refs_subset hs hv
        have huc : u ∈ c.refs := mem_refs.mpr ⟨s, hs⟩
        have hwv : w ≠ v := fun h => hwc (h ▸ hvc)
        have hwu : w ≠ u := fun h => hwc (h ▸ huc)
        rw [setNode, if_neg hwv, setNode, if_neg hwu,
          ihc (List.Nodup.of_append_left hboth) hs hvc,
          setNode_of_not_mem (not_mem_of_nodup_append hboth hvc),
          setNode_of_not_mem (not_mem_of_nodup_append hboth huc)]
      · have hvr : v ∈ r.refs := refs_subset hs hv
        have hur : u ∈ r.refs := mem_refs.mpr ⟨s, hs⟩
        have hwv : w ≠ v := fun h => hwr (h ▸ hvr)
        have hwu : w ≠ u := fun h => hwr (h ▸ hur)
        have hvc : v ∉ c.refs := fun h => not_mem_of_nodup_append hboth h hvr
        have huc : u ∉ c.refs := fun h => not_mem_of_nodup_append hboth h hur
        rw [setNode, if_neg hwv, setNode, if_neg hwu,
          ihr (List.Nodup.of_append_right hboth) hs hvr, setNode_of_not_mem hvc,
          setNode_of_not_mem huc]

/-- Exchanging a node for a proper one keeps the tree uniform. -/
lemma uniform_setNode (hs : s.Proper) (ht : t.Uniform inner) : (setNode v s t).Uniform inner := by
  induction t generalizing inner with
  | last => exact ht
  | lastChild u c ih =>
    rw [setNode]
    split
    · exact ⟨ht.1, hs⟩
    · exact ⟨ht.1, ht.2.imp fun _ => ih⟩
  | cons e r ih => exact ⟨ht.1, ih ht.2⟩
  | consChild u c e r ihc ihr =>
    rw [setNode]
    split
    · exact ⟨ht.1, hs, ht.2.2⟩
    · exact ⟨ht.1, ht.2.1.imp fun _ => ihc, ihr ht.2.2⟩

/-! ## Nodes of a tree, the root included -/

def NodeAt (t : Items V E) : Option V → Items V E → Prop
  | none, s => s = t
  | some v, s => (v, s) ∈ t.subtrees

def replaceAt : Option V → Items V E → Items V E → Items V E
  | none, s, _ => s
  | some v, s, t => setNode v s t

/-- The node itself as it is stored, if it is not the root. -/
def self : Option V → Items V E → List (V × List (Entry V E) × Option V)
  | none, _ => []
  | some v, s => [(v, s.shape)]

variable {t s : Items V E} {p : Option V}

omit [DecidableEq V] in
lemma NodeAt.subtrees_subset (hs : NodeAt t p s) : s.subtrees ⊆ t.subtrees := by
  cases p with
  | none =>
    cases hs
    exact List.Subset.refl _
  | some v => exact subtrees_trans hs

omit [DecidableEq V] in
lemma NodeAt.proper (ht : t.Proper) (hs : NodeAt t p s) : s.Proper := by
  cases p with
  | none =>
    cases hs
    exact ht
  | some v => exact ht.elim fun _ h => h.proper hs

section

variable (hnodup : t.refs.Nodup) (hs : NodeAt t p s)
include hnodup hs

lemma stored_replaceAt :
    ∃ others, t.stored.Perm (self p s ++ s.stored ++ others) ∧
      ∀ s', (replaceAt p s' t).stored.Perm (self p s' ++ s'.stored ++ others) := by
  cases p with
  | none =>
    cases hs
    exact ⟨[], by simp [self], fun s' => by simp [self, replaceAt]⟩
  | some v => exact stored_setNode hnodup hs

lemma NodeAt.stored_subset : self p s ++ s.stored ⊆ t.stored := by
  obtain ⟨others, hold, -⟩ := stored_replaceAt hnodup hs
  exact fun q hq => hold.mem_iff.mpr (mem_append_left _ hq)

lemma NodeAt.nodup : ((self p s ++ s.stored).map Prod.fst).Nodup := by
  obtain ⟨others, hold, -⟩ := stored_replaceAt hnodup hs
  rw [refs_eq_stored, (hold.map Prod.fst).nodup_iff, map_append] at hnodup
  exact hnodup.of_append_left

lemma NodeAt.refs_nodup : s.refs.Nodup := by
  have h := hs.nodup hnodup
  rw [map_append, ← refs_eq_stored] at h
  exact h.of_append_right

lemma NodeAt.ne_some (hv : v ∈ s.refs) : p ≠ some v := by
  rintro rfl
  have h := hs.nodup hnodup
  rw [map_append, ← refs_eq_stored] at h
  exact not_mem_of_nodup_append h (by simp [self]) hv

end

section

variable (hnodup : t.refs.Nodup) (hs : NodeAt t p s)
include hnodup hs

/-- Addresses that come from outside of the tree can be used below the exchanged node. -/
lemma refs_replaceAt (hrefs : (s'.refs ++ extra').Perm (s.refs ++ extra)) :
    ((replaceAt p s' t).refs ++ extra').Perm (t.refs ++ extra) := by
  obtain ⟨others, hold, hnew⟩ := stored_replaceAt hnodup hs
  have hself : (self p s').map Prod.fst = (self p s).map Prod.fst := by cases p <;> rfl
  have hregroup : ∀ xs ys zs ws : List V,
      (xs ++ ys ++ zs ++ ws).Perm (xs ++ zs ++ (ys ++ ws)) := by
    intro xs ys zs ws
    rw [append_assoc xs, append_assoc xs, append_assoc xs, append_assoc]
    exact (perm_append_comm_assoc ys zs ws).append_left xs
  have hnewRefs := ((hnew s').map Prod.fst).append_right extra'
  have holdRefs := (hold.map Prod.fst).append_right extra
  rw [map_append, map_append, ← refs_eq_stored, ← refs_eq_stored] at hnewRefs holdRefs
  rw [hself] at hnewRefs
  exact (hnewRefs.trans (hregroup _ _ _ _)).trans
    ((hrefs.append_left _).trans (holdRefs.trans (hregroup _ _ _ _)).symm)

/-- The nodes of a tree with an exchanged node are that node, those below it, and nodes
of the old tree at other addresses. -/
lemma mem_stored_replaceAt {s' : Items V E} (hq : q ∈ (replaceAt p s' t).stored) :
    q ∈ self p s' ++ s'.stored ∨ q ∈ t.stored ∧ q.1 ∉ (self p s ++ s.stored).map Prod.fst := by
  obtain ⟨others, hold, hnew⟩ := stored_replaceAt hnodup hs
  rcases mem_append.mp ((hnew s').mem_iff.mp hq) with hin | hin
  · exact .inl hin
  · refine .inr ⟨hold.mem_iff.mpr (mem_append_right _ hin), fun hmem => ?_⟩
    rw [refs_eq_stored, (hold.map Prod.fst).nodup_iff, map_append] at hnodup
    exact not_mem_of_nodup_append hnodup hmem (mem_map_of_mem hin)

lemma filled_replaceAt (ht : t.Filled) (hs' : ∀ q ∈ self p s' ++ s'.stored, q.2 ≠ ([], none)) :
    (replaceAt p s' t).Filled := fun q hq =>
  (mem_stored_replaceAt hnodup hs hq).elim (hs' q) fun h => ht q h.1

lemma inorder_replaceAt :
    ∃ pre post, t.inorder = pre ++ s.inorder ++ post ∧
      ∀ s', (replaceAt p s' t).inorder = pre ++ s'.inorder ++ post := by
  cases p with
  | none =>
    cases hs
    exact ⟨[], [], by simp, fun s' => by simp [replaceAt]⟩
  | some v => exact inorder_setNode hnodup hs

end

lemma proper_replaceAt (ht : t.Proper) (hs' : s'.Proper) : (replaceAt p s' t).Proper := by
  cases p with
  | none => exact hs'
  | some v => exact ht.imp fun _ => uniform_setNode hs'

lemma replaceAt_below (hnodup : t.refs.Nodup) (hs : NodeAt t p s) (hv : v ∈ s.refs) :
    setNode v s' t = replaceAt p (setNode v s' s) t := by
  cases p with
  | none =>
    cases hs
    rfl
  | some u => exact setNode_below hnodup hs hv

end Exchange

/-! ## Splitting a node -/

/-- Split the items of a node at an entry: what comes before it, which ends with the
child of the entry, the entry itself, and what comes after it. -/
def splitAt : Nat → Items V E → Option (Items V E × E × Items V E)
  | 0, cons e r => some (last, e, r)
  | 0, consChild v c e r => some (lastChild v c, e, r)
  | k + 1, cons e r => (r.splitAt k).map fun p => (cons e p.1, p.2)
  | k + 1, consChild v c e r => (r.splitAt k).map fun p => (consChild v c e p.1, p.2)
  | _, _ => none

/-- How the parts of a split node are related to it. -/
structure SplitOf (k : Nat) (c : Items V E) (l : Items V E) (m : E) (r : Items V E) : Prop where
  inorder_eq : c.inorder = l.inorder ++ m :: r.inorder
  stored_perm : c.stored.Perm (l.stored ++ r.stored)
  left_entries : l.entries = c.entries.take k
  right_entries : r.entries = c.entries.drop (k + 1)
  median : c.entries[k]? = some ⟨m, l.lastRef⟩
  right_lastRef : r.lastRef = c.lastRef
  uniform : ∀ inner, c.Uniform inner → l.Uniform inner ∧ r.Uniform inner

lemma splitAt_spec {l r : Items V E} (hsplit : splitAt k c = some (l, m, r)) :
    SplitOf k c l m r := by
  induction k generalizing c l m r with
  | zero =>
    cases c with
    | last => cases hsplit
    | lastChild v d => cases hsplit
    | cons e d =>
      cases hsplit
      exact ⟨rfl, List.Perm.refl _, rfl, rfl, rfl, rfl, fun inner h => ⟨h.1, h.2⟩⟩
    | consChild v d e t =>
      cases hsplit
      exact ⟨rfl, by simp, rfl, rfl, rfl, rfl, fun inner h => ⟨⟨h.1, h.2.1⟩, h.2.2⟩⟩
  | succ k ih =>
    cases c with
    | last => cases hsplit
    | lastChild v d => cases hsplit
    | cons e d =>
      obtain ⟨⟨l', m', r'⟩, hrest, heq⟩ := Option.map_eq_some_iff.mp hsplit
      cases heq
      have h := ih hrest
      exact ⟨congrArg (e :: ·) h.inorder_eq, h.stored_perm,
        congrArg (_ :: ·) h.left_entries, h.right_entries, h.median, h.right_lastRef,
        fun inner hu => ⟨⟨hu.1, (h.uniform inner hu.2).1⟩, (h.uniform inner hu.2).2⟩⟩
    | consChild v d e t =>
      obtain ⟨⟨l', m', r'⟩, hrest, heq⟩ := Option.map_eq_some_iff.mp hsplit
      cases heq
      have h := ih hrest
      refine ⟨?_, ?_, congrArg (_ :: ·) h.left_entries, h.right_entries, h.median,
        h.right_lastRef, fun inner hu =>
          ⟨⟨hu.1, hu.2.1, (h.uniform inner hu.2.2).1⟩, (h.uniform inner hu.2.2).2⟩⟩
      · simp [inorder, h.inorder_eq]
      · rw [stored_consChild, stored_consChild, cons_append, append_assoc]
        exact (h.stored_perm.append_left _).cons _

lemma splitAt_exists (hk : k < c.entries.length) : ∃ l m r, splitAt k c = some (l, m, r) := by
  induction k generalizing c with
  | zero =>
    cases c with
    | last => cases hk
    | lastChild v d => cases hk
    | cons e d => exact ⟨_, _, _, rfl⟩
    | consChild v d e t => exact ⟨_, _, _, rfl⟩
  | succ k ih =>
    cases c with
    | last => cases hk
    | lastChild v d => cases hk
    | cons e d =>
      obtain ⟨l, m, r, h⟩ := ih (Nat.lt_of_succ_lt_succ hk)
      exact ⟨_, _, _, by rw [splitAt, h]; rfl⟩
    | consChild v d e t =>
      obtain ⟨l, m, r, h⟩ := ih (Nat.lt_of_succ_lt_succ hk)
      exact ⟨_, _, _, by rw [splitAt, h]; rfl⟩

/-- Put a split child into its parent: the left part takes the child's place, and
the median and the right part, under a new address, follow. -/
def splitSlot (l : Items V E) (m : E) (new : V) (r : Items V E) : Nat → Items V E → Items V E
  | 0, lastChild v _ => consChild v l m (lastChild new r)
  | 0, consChild v _ e s => consChild v l m (consChild new r e s)
  | k + 1, cons e s => cons e (splitSlot l m new r k s)
  | k + 1, consChild v c e s => consChild v c e (splitSlot l m new r k s)
  | _, s => s

section Parent

variable {s c l r : Items V E} {m : E} {i : Nat} {v new : V}

section

variable (hslot : s.slot i = some (v, c))
include hslot

lemma inorder_splitSlot (hsplit : c.inorder = l.inorder ++ m :: r.inorder) :
    (splitSlot l m new r i s).inorder = s.inorder := by
  induction s, i, hslot using slot_induction with
  | atLast => exact hsplit.symm
  | atEntry e s => simp [splitSlot, inorder, hsplit]
  | cons e s n _ ih => exact congrArg (e :: ·) ih
  | consChild u d e s n _ ih => exact congrArg (fun tail => d.inorder ++ e :: tail) ih

lemma stored_splitSlot (l : Items V E) (m : E) (new : V) (r : Items V E) :
    ∃ others, s.stored.Perm ((v, c.shape) :: c.stored ++ others) ∧
      (splitSlot l m new r i s).stored.Perm
        ((v, l.shape) :: (new, r.shape) :: (l.stored ++ r.stored) ++ others) := by
  induction s, i, hslot using slot_induction with
  | atLast =>
    refine ⟨[], by simp, ?_⟩
    rw [splitSlot, stored_consChild, stored_lastChild, append_nil]
    exact perm_middle.cons _
  | atEntry e s =>
    refine ⟨s.stored, by simp, ?_⟩
    rw [splitSlot, stored_consChild, stored_consChild, cons_append, cons_append, append_assoc]
    exact perm_middle.cons _
  | cons e s n _ ih => exact ih
  | consChild u d e s n _ ih =>
    obtain ⟨others, hold, hnew⟩ := ih
    refine ⟨(u, d.shape) :: (d.stored ++ others), ?_, ?_⟩
    · rw [stored_consChild]
      exact perm_behind _ hold
    · rw [splitSlot, stored_consChild]
      exact perm_behind _ hnew

lemma entries_splitSlot :
    (splitSlot l m new r i s).entries =
      (s.entries.modify i fun e => { e with child := some new }).take i ++
        ⟨m, some v⟩ :: (s.entries.modify i fun e => { e with child := some new }).drop i := by
  induction s, i, hslot using slot_induction with
  | atLast => rfl
  | atEntry e s => rfl
  | cons e s n _ ih => exact congrArg (_ :: ·) ih
  | consChild u d e s n _ ih => exact congrArg (_ :: ·) ih

lemma lastRef_splitSlot :
    (splitSlot l m new r i s).lastRef = if i < s.entries.length then s.lastRef else some new := by
  induction s, i, hslot using slot_induction with
  | atLast => rfl
  | atEntry e s => rfl
  | cons e s n _ ih => exact ih.trans (by simp [entries, lastRef])
  | consChild u d e s n _ ih => exact ih.trans (by simp [entries, lastRef])

end

lemma uniform_splitSlot (hs : s.Uniform inner) (hl : l.Proper) (hr : r.Proper) :
    (splitSlot l m new r i s).Uniform inner := by
  induction s generalizing i with
  | last => cases i <;> exact hs
  | lastChild u d _ =>
    cases i with
    | zero => exact ⟨hs.1, hl, hs.1, hr⟩
    | succ n => exact hs
  | cons e s ih =>
    cases i with
    | zero => exact hs
    | succ n => exact ⟨hs.1, ih hs.2⟩
  | consChild u d e s _ ih =>
    cases i with
    | zero => exact ⟨hs.1, hl, hs.1, hr, hs.2.2⟩
    | succ n => exact ⟨hs.1, hs.2.1, ih hs.2.2⟩

end Parent

/-! ## Inserting into a leaf -/

/-- Put an entry without a child before the one at a position. -/
def insertAt (x : E) : Nat → Items V E → Items V E
  | 0, s => cons x s
  | k + 1, cons e s => cons e (insertAt x k s)
  | _ + 1, s => cons x s

section

variable (hs : s.Uniform false)
include hs

lemma Uniform.leaf_stored : s.stored = [] := by
  induction s with
  | last => rfl
  | lastChild u d _ => cases hs.1
  | cons e s ih => exact ih hs.2
  | consChild u d e s _ _ => cases hs.1

lemma uniform_insertAt : (insertAt x i s).Uniform false := by
  induction s generalizing i with
  | last => cases i <;> exact ⟨rfl, hs⟩
  | lastChild u d _ => cases hs.1
  | cons e s ih =>
    cases i with
    | zero => exact ⟨rfl, hs⟩
    | succ n => exact ⟨rfl, ih hs.2⟩
  | consChild u d e s _ _ => cases hs.1

lemma inorder_insertAt : (insertAt x i s).inorder = s.inorder.take i ++ x :: s.inorder.drop i := by
  induction s generalizing i with
  | last => cases i <;> rfl
  | lastChild u d _ => cases hs.1
  | cons e s ih =>
    cases i with
    | zero => rfl
    | succ n => exact congrArg (e :: ·) (ih hs.2)
  | consChild u d e s _ _ => cases hs.1

lemma entries_insertAt :
    (insertAt x i s).entries = s.entries.take i ++ ⟨x, none⟩ :: s.entries.drop i := by
  induction s generalizing i with
  | last => cases i <;> rfl
  | lastChild u d _ => cases hs.1
  | cons e s ih =>
    cases i with
    | zero => rfl
    | succ n => exact congrArg (_ :: ·) (ih hs.2)
  | consChild u d e s _ _ => cases hs.1

end

end Items

end Foundation.ItemTree
