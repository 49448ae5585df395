import NtfsDxe.Index.Rules

/-! # What a lookup finds

In a tree whose inorder sequence is increasing, a lookup ends at the entry with
the key, or at the place in a leaf where such an entry belongs. The context
then holds the path to that place. The path starts at the level at which the
context was before, since reusing a context does not reset it.
-/

namespace NtfsDxe

open Foundation ItemTree Prog List Function Items

/-! ## Paths in a context -/

section Paths

variable {K P : Type}

/-- The levels `lo` to `n` of a context are a path from the root downwards. -/
structure Path (t : IndexTree K P) (vcns : Nat → Option Nat) (poss : Nat → Nat) (lo n : Nat) :
    Prop where
  le : lo ≤ n
  start : vcns lo = none
  step : ∀ i, lo ≤ i → i < n → ∃ s v c, t.NodeAt (vcns i) s ∧ s.slot (poss i) = some (v, c) ∧
    vcns (i + 1) = some v

namespace Path

lemma nil (t : IndexTree K P) : Path t (update vcns n none) poss n n where
  le := le_refl n
  start := update_self _ _ _
  step := fun _ hle hlt => absurd hlt (not_lt.mpr hle)

lemma snoc (h : Path t vcns poss lo n) (hs : t.NodeAt (vcns n) s)
    (hslot : s.slot (poss n) = some (v, c)) :
    Path t (update vcns (n + 1) (some v)) poss lo (n + 1) where
  le := Nat.le_succ_of_le h.le
  start := (update_of_ne (ne_of_lt (Nat.lt_succ_of_le h.le)) _ _).trans h.start
  step := by
    intro i hle hlt
    rw [update_of_ne (ne_of_lt hlt)]
    rcases Nat.lt_succ_iff_lt_or_eq.mp hlt with hlt' | rfl
    · rw [update_of_ne (ne_of_lt (Nat.succ_lt_succ hlt'))]
      exact h.step i hle hlt'
    · exact ⟨s, v, c, hs, hslot, update_self _ _ _⟩

lemma setPos (h : Path t vcns poss lo n) : Path t vcns (update poss n pos) lo n where
  le := h.le
  start := h.start
  step := by
    intro i hle hlt
    rw [update_of_ne (ne_of_lt hlt)]
    exact h.step i hle hlt

end Path

end Paths

variable {K P : Type} [LinearOrder K]

def Ordered (es : List (Record K P)) : Prop := es.Pairwise fun a b => a.key < b.key

/-! ## Searching a node -/

section Search

variable {key : K} {s c : IndexTree K P}

lemma searchEntries_le : (searchEntries key es).1 ≤ es.length := by
  induction es with
  | nil => exact le_refl 0
  | cons e es ih =>
    rw [searchEntries]
    split
    · exact Nat.zero_le _
    · split
      · exact Nat.zero_le _
      · exact Nat.succ_le_succ ih

/-- The search goes past an entry only if its key is smaller. -/
lemma searchEntries_cons (hsearch : searchEntries key (e :: es) = (pos, false)) :
    pos = 0 ∧ key < e.item.key ∨
      ∃ n, pos = n + 1 ∧ e.item.key < key ∧ searchEntries key es = (n, false) := by
  rw [searchEntries] at hsearch
  split at hsearch
  · next h => exact .inl ⟨(congrArg Prod.fst hsearch).symm, h⟩
  · next h =>
      split at hsearch
      · cases congrArg Prod.snd hsearch
      · next hne =>
          obtain ⟨hpos, hnot⟩ := Prod.mk.inj hsearch
          exact .inr ⟨_, hpos.symm, lt_of_le_of_ne (not_lt.mp h) (Ne.symm hne), Prod.ext rfl hnot⟩

lemma searchEntries_found (hsearch : searchEntries key es = (pos, true)) :
    ∃ e, es[pos]? = some e ∧ e.item.key = key := by
  induction es generalizing pos with
  | nil => cases congrArg Prod.snd hsearch
  | cons e es ih =>
    rw [searchEntries] at hsearch
    split at hsearch
    · cases congrArg Prod.snd hsearch
    · split at hsearch
      · next heq =>
          cases hsearch
          exact ⟨e, rfl, heq.symm⟩
      · obtain ⟨rfl, hfound⟩ := Prod.mk.inj hsearch
        exact ih (Prod.ext rfl hfound)

/-- In a leaf the search divides the entries into smaller and larger ones. -/
lemma search_leaf (hleaf : s.Uniform false) (hord : Ordered s.inorder)
    (hsearch : searchEntries key s.entries = (pos, false)) :
    (∀ x ∈ s.inorder.take pos, x.key < key) ∧ ∀ x ∈ s.inorder.drop pos, key < x.key := by
  induction s generalizing pos with
  | last => simp [inorder]
  | lastChild u d _ => cases hleaf.1
  | cons e s ih =>
    have hlt := (pairwise_cons.mp hord).1
    rcases searchEntries_cons hsearch with ⟨rfl, h⟩ | ⟨n, rfl, h, hrest⟩
    · refine ⟨by simp, fun x hx => ?_⟩
      rcases mem_cons.mp hx with rfl | hx
      · exact h
      · exact lt_trans h (hlt x hx)
    · obtain ⟨hbefore, hafter⟩ := ih hleaf.2 hord.of_cons hrest
      refine ⟨fun x hx => ?_, hafter⟩
      rcases mem_cons.mp hx with rfl | hx
      · exact h
      · exact hbefore x hx
  | consChild u d e s _ _ => cases hleaf.1

/-- In an inner node the search divides the entries outside of the child where it
stops. -/
lemma search_slot (hnodup : s.refs.Nodup) (hord : Ordered s.inorder)
    (hsearch : searchEntries key s.entries = (pos, false)) (hslot : s.slot pos = some (v, c)) :
    ∃ pre post, s.inorder = pre ++ c.inorder ++ post ∧
      (∀ c', (setNode v c' s).inorder = pre ++ c'.inorder ++ post) ∧
      (∀ x ∈ pre, x.key < key) ∧ ∀ x ∈ post, key < x.key := by
  induction s generalizing pos with
  | last => cases pos <;> cases hslot
  | lastChild u d _ =>
    cases pos with
    | zero =>
      cases hslot
      refine ⟨[], [], by simp [inorder], fun c' => ?_, by simp, by simp⟩
      rw [setNode]
      simp [inorder]
    | succ n => cases hslot
  | cons e s ih =>
    rcases searchEntries_cons hsearch with ⟨rfl, h⟩ | ⟨n, rfl, h, hrest⟩
    · cases hslot
    · obtain ⟨pre, post, hold, hnew, hbefore, hafter⟩ := ih hnodup hord.of_cons hrest hslot
      refine ⟨e :: pre, post, ?_, fun c' => ?_, ?_, hafter⟩
      · rw [inorder, hold]
        rfl
      · rw [setNode, inorder, hnew]
        rfl
      · exact forall_mem_cons.mpr ⟨h, hbefore⟩
  | consChild u d e s _ ih =>
    rw [refs_consChild, nodup_cons, mem_append, not_or] at hnodup
    obtain ⟨⟨_, hus⟩, hboth⟩ := hnodup
    obtain ⟨-, hright, hcross⟩ := pairwise_append.mp hord
    have hlt := (pairwise_cons.mp hright).1
    rcases searchEntries_cons hsearch with ⟨rfl, h⟩ | ⟨n, rfl, h, hrest⟩
    · cases hslot
      refine ⟨[], e :: s.inorder, by simp [inorder], fun c' => ?_, by simp, ?_⟩
      · rw [setNode]
        simp [inorder]
      · exact forall_mem_cons.mpr ⟨h, fun x hx => lt_trans h (hlt x hx)⟩
    · obtain ⟨pre, post, hold, hnew, hbefore, hafter⟩ :=
        ih (List.Nodup.of_append_right hboth) hright.of_cons hrest hslot
      have hv : v ∈ s.refs := mem_refs.mpr ⟨c, slot_mem (i := n) hslot⟩
      have hne : u ≠ v := fun h => hus (h ▸ hv)
      have hnot : v ∉ d.refs := fun h => not_mem_of_nodup_append hboth h hv
      refine ⟨d.inorder ++ e :: pre, post, by simp [inorder, hold], fun c' => ?_, ?_, hafter⟩
      · rw [setNode, if_neg hne, setNode_of_not_mem hnot, inorder, hnew]
        simp
      · intro x hx
        rcases mem_append.mp hx with hx | hx
        · exact lt_trans (hcross x hx e mem_cons_self) h
        · rcases mem_cons.mp hx with rfl | hx
          · exact h
          · exact hbefore x hx

/-- The levels below the root on the way to a key. -/
def searchDepth (key : K) : IndexTree K P → Nat
  | .last => 0
  | .lastChild _ c => searchDepth key c + 1
  | .cons e s => if key ≤ e.key then 0 else searchDepth key s
  | .consChild _ c e s =>
    if key < e.key then searchDepth key c + 1
    else if key = e.key then 0 else searchDepth key s

lemma searchDepth_slot (hsearch : searchEntries key s.entries = (pos, false))
    (hslot : s.slot pos = some (v, c)) : searchDepth key s = searchDepth key c + 1 := by
  induction s generalizing pos with
  | last => cases pos <;> cases hslot
  | lastChild u d _ =>
    cases pos with
    | zero =>
      cases hslot
      rfl
    | succ n => cases hslot
  | cons e s ih =>
    rcases searchEntries_cons hsearch with ⟨rfl, -⟩ | ⟨n, rfl, h, hrest⟩
    · cases hslot
    · rw [searchDepth, if_neg (not_le.mpr h)]
      exact ih hrest hslot
  | consChild u d e s _ ih =>
    rcases searchEntries_cons hsearch with ⟨rfl, h⟩ | ⟨n, rfl, h, hrest⟩
    · cases hslot
      rw [searchDepth, if_pos h]
    · rw [searchDepth, if_neg (not_lt.mpr (le_of_lt h)), if_neg (ne_of_gt h)]
      exact ih hrest hslot

lemma searchDepth_found (hsearch : searchEntries key s.entries = (pos, true)) :
    searchDepth key s = 0 := by
  induction s generalizing pos with
  | last => rfl
  | lastChild u d _ => cases congrArg Prod.snd hsearch
  | cons e s ih =>
    rw [searchDepth]
    rw [entries, searchEntries] at hsearch
    split at hsearch
    · cases congrArg Prod.snd hsearch
    · split at hsearch
      · next heq => exact if_pos (le_of_eq heq)
      · obtain ⟨-, hfound⟩ := Prod.mk.inj hsearch
        rw [ih (Prod.ext rfl hfound), ite_self]
  | consChild u d e s _ ih =>
    rw [searchDepth]
    rw [entries, searchEntries] at hsearch
    split at hsearch
    · cases congrArg Prod.snd hsearch
    · next hlt =>
      rw [if_neg hlt]
      split at hsearch
      · next heq => exact if_pos heq
      · obtain ⟨-, hfound⟩ := Prod.mk.inj hsearch
        rw [ih (Prod.ext rfl hfound), ite_self]

lemma searchDepth_le (key : K) (s : IndexTree K P) : searchDepth key s ≤ s.height := by
  induction s with
  | last => exact le_refl 0
  | lastChild u d ih => exact Nat.succ_le_succ ih
  | cons e s ih =>
    rw [searchDepth]
    split
    · exact Nat.zero_le _
    · exact ih
  | consChild u d e s ihd ih =>
    rw [searchDepth]
    split
    · exact le_max_of_le_left (Nat.succ_le_succ ihd)
    · split
      · exact Nat.zero_le _
      · exact le_max_of_le_right ih

lemma searchDepth_leaf (hleaf : s.Uniform false) : searchDepth key s = 0 := by
  induction s with
  | last => rfl
  | lastChild u d _ => cases hleaf.1
  | cons e s ih =>
    rw [searchDepth, ih hleaf.2, ite_self]
  | consChild u d e s _ _ => cases hleaf.1

/-- What `ntfs_ie_lookup` says about a node of a tree. -/
def NodeLookup.Correct (key : K) (s : IndexTree K P) : NodeLookup → Prop
  | .found pos => searchDepth key s = 0 ∧ ∃ e, s.entries[pos]? = some e ∧ e.item.key = key
  | .notFound pos => s.Uniform false ∧ searchEntries key s.entries = (pos, false)
  | .keepSearching pos v =>
    s.Uniform true ∧ searchEntries key s.entries = (pos, false) ∧ ∃ c, s.slot pos = some (v, c)

lemma ieLookup_correct (key : K) (hproper : s.Proper) :
    (ieLookup key (nodeOf s.shape)).Correct key s := by
  obtain ⟨inner, huniform⟩ := hproper
  have hle : (searchEntries key s.entries).1 ≤ s.entries.length := searchEntries_le
  have hvcn := vcnAt_nodeOf hle
  have hsome := huniform.slot_isSome hle
  unfold ieLookup
  rw [show (nodeOf s.shape).entries = s.entries from rfl]
  dsimp only
  split
  · next hfound =>
      exact ⟨searchDepth_found (Prod.ext rfl hfound), searchEntries_found (Prod.ext rfl hfound)⟩
  · next hfound =>
      have hsearch : searchEntries key s.entries = ((searchEntries key s.entries).1, false) :=
        Prod.ext rfl (Bool.not_eq_true _ ▸ hfound)
      rw [hvcn]
      cases hslot : s.slot (searchEntries key s.entries).1 with
      | none =>
        rw [hslot] at hsome
        cases hsome
        exact ⟨huniform, hsearch⟩
      | some q =>
        rw [hslot] at hsome
        cases hsome
        exact ⟨huniform, hsearch, q.2, hslot⟩

end Search

/-! ## Places in a tree -/

/-- A node such that the place of a key is in it or below it. -/
structure Place (t : IndexTree K P) (key : K) (p : Option Nat) (s : IndexTree K P) : Prop where
  node : t.NodeAt p s
  around : ∃ pre post, t.inorder = pre ++ s.inorder ++ post ∧
    (∀ s', (replaceAt p s' t).inorder = pre ++ s'.inorder ++ post) ∧
    (∀ x ∈ pre, x.key < key) ∧ ∀ x ∈ post, key < x.key

namespace Place

variable {t s c : IndexTree K P}

lemma root (t : IndexTree K P) (key : K) : Place t key none t :=
  ⟨rfl, [], [], by simp, fun s' => by simp [replaceAt], by simp, by simp⟩

lemma ordered (h : Place t key p s) (hord : Ordered t.inorder) : Ordered s.inorder := by
  obtain ⟨pre, post, hold, -⟩ := h.around
  rw [hold] at hord
  exact (pairwise_append.mp (pairwise_append.mp hord).1).2.1

lemma child (h : Place t key p s) (hnodup : t.refs.Nodup) (hord : Ordered t.inorder)
    (hsearch : searchEntries key s.entries = (pos, false)) (hslot : s.slot pos = some (v, c)) :
    Place t key (some v) c := by
  have hmem := slot_mem hslot
  have hv : v ∈ s.refs := mem_refs.mpr ⟨c, hmem⟩
  obtain ⟨pre, post, hold, hnew, hbefore, hafter⟩ := h.around
  obtain ⟨a, b, holdc, hnewc, ha, hb⟩ :=
    search_slot (h.node.refs_nodup hnodup) (h.ordered hord) hsearch hslot
  refine ⟨h.node.subtrees_subset hmem, pre ++ a, b ++ post, ?_, fun c' => ?_, ?_, ?_⟩
  · simp [hold, holdc]
  · rw [replaceAt, replaceAt_below hnodup h.node hv, hnew, hnewc]
    simp
  · exact fun x hx => (mem_append.mp hx).elim (hbefore x) (ha x)
  · exact fun x hx => (mem_append.mp hx).elim (hb x) (hafter x)

end Place

/-! ## The result of a lookup -/

/-- The context describes the position `pos` in the node `s` at `p`. -/
structure Located (t : IndexTree K P) (icx : IndexContext K P) (key : K) (lo : Nat)
    (found : Bool) (p : Option Nat) (s : IndexTree K P) (pos : Nat) : Prop where
  place : Place t key p s
  path : Path t icx.parentVcn icx.parentPos lo icx.pindex
  vcn : icx.parentVcn icx.pindex = p
  inRoot : icx.isInRoot = p.isNone
  ib : ∀ v, p = some v → icx.ib = (v, nodeOf s.shape)
  entry : icx.entry = pos
  hasEntry : icx.hasEntry = true
  opened : p.isSome = true → icx.held .iaNa = .opened
  isFound : found = true →
    icx.parentPos icx.pindex = pos ∧ ∃ e, s.entries[pos]? = some e ∧ e.item.key = key
  notFound : found = false → s.Uniform false ∧ searchEntries key s.entries = (pos, false)

/-- There are levels left in the context for the way to a key. -/
def LevelsLeft (icx : IndexContext K P) (t : IndexTree K P) (key : K) : Prop :=
  searchDepth key t = 0 ∨ icx.pindex + searchDepth key t < maxParentVcn

/-- The result of a lookup that starts in the world `w`. -/
structure LookedUp (w : IndexWorld K P) (t : IndexTree K P) (key : K) (found : Bool)
    (w' : IndexWorld K P) : Prop where
  index : w'.index = w.index
  dirty : w'.icx.ibDirty = w.icx.ibDirty
  refused : w'.refused = w.refused
  levels : LevelsLeft w.icx t key
  located : ∃ p s pos, Located t w'.icx key w.icx.pindex found p s pos

/-- A lookup that fails changes neither the index nor what is to be written. Either a
request was refused, or there are too many levels. -/
structure LookupFailed (env : IndexEnv K) (w : IndexWorld K P) (deep : Prop) (err : IndexError)
    (w' : IndexWorld K P) : Prop where
  error : err ≠ .errno .eexist
  index : w'.index = w.index
  dirty : w'.icx.ibDirty = w.icx.ibDirty
  cause : w'.refused = w.refused ∧ deep ∨
    ∃ r n, env.fails r n = true ∧ w'.refused = r :: w.refused

section Spec

variable {t s c : IndexTree K P}

/-- The descent from the node `s` at `oldVcn` to the child at which the search in it
stops. -/
lemma descendLookup_spec (h : StoresTree w.index t) (hord : Ordered t.inorder)
    (hopen : w.icx.held .iaNa = .opened)
    (hpath : Path t (update w.icx.parentVcn w.icx.pindex oldVcn) w.icx.parentPos lo
      w.icx.pindex)
    (hplace : Place t key oldVcn s) (hpos : w.icx.parentPos w.icx.pindex = pos)
    (hsearch : searchEntries key s.entries = (pos, false)) (hslot : s.slot pos = some (vcn, c))
    (hfuel : maxParentVcn ≤ w.icx.pindex + fuel) :
    wp (descendLookup env key fuel oldVcn vcn)
      (fun found w' => w'.index = w.index ∧ w'.icx.ibDirty = w.icx.ibDirty ∧
        w'.refused = w.refused ∧ w.icx.pindex + searchDepth key s < maxParentVcn ∧
        ∃ p s pos, Located t w'.icx key lo found p s pos)
      (LookupFailed env w (maxParentVcn ≤ w.icx.pindex + searchDepth key s)) w := by
  induction fuel generalizing w oldVcn vcn s c pos with
  | zero => exact ⟨by decide, rfl, rfl, .inl ⟨rfl, le_trans hfuel (Nat.le_add_right _ _)⟩⟩
  | succ fuel ih =>
    subst hpos
    have hchild := hplace.child h.refs_nodup hord hsearch hslot
    have hs : t.NodeAt (update w.icx.parentVcn w.icx.pindex oldVcn w.icx.pindex) s := by
      rw [update_self]
      exact hplace.node
    have hsnoc := hpath.snoc hs hslot
    have hnode := h.node_stored hchild.node
    rw [searchDepth_slot hsearch hslot]
    simp only [descendLookup, wp_bind, setParentVcn, icxParentInc, wp_modifyIcx, wp_reads,
      wp_ite, wp_pure]
    split
    · next hdeep =>
        exact ⟨by decide, rfl, rfl, .inl ⟨rfl, le_trans hdeep (by simp)⟩⟩
    · next hdeep =>
        refine wp_ibRead hopen hnode
          (fun hfail => ⟨by decide, rfl, rfl, .inr ⟨_, _, hfail, rfl⟩⟩) fun _ => ?_
        have hlookup := ieLookup_correct key (hchild.node.proper h.proper)
        cases hresult : ieLookup key (nodeOf c.shape) with
        | found pos =>
          rw [hresult] at hlookup
          rw [hlookup.1]
          exact ⟨rfl, rfl, rfl, not_le.mp hdeep, some vcn, c, pos, hchild, hsnoc.setPos,
            update_self _ _ _, rfl, fun v hv => by cases hv; rfl, rfl, rfl, fun _ => hopen,
            fun _ => ⟨update_self _ _ _, hlookup.2⟩, fun hf => by cases hf⟩
        | notFound pos =>
          rw [hresult] at hlookup
          rw [searchDepth_leaf hlookup.1]
          exact ⟨rfl, rfl, rfl, not_le.mp hdeep, some vcn, c, pos, hchild, hsnoc,
            update_self _ _ _, rfl, fun v hv => by cases hv; rfl, rfl, rfl, fun _ => hopen,
            (fun hf => by cases hf), fun _ => hlookup⟩
        | keepSearching pos vcn' =>
          rw [hresult] at hlookup
          obtain ⟨huniform, hsearch', d, hslot'⟩ := hlookup
          have hisNode : (nodeOf c.shape).isNode = true := huniform.lastRef_isSome
          have hlevels : w.icx.pindex + 1 + searchDepth key c =
              w.icx.pindex + (searchDepth key c + 1) := by
            omega
          have hfuel' : maxParentVcn ≤ w.icx.pindex + 1 + fuel := by
            omega
          simp only [setParentPos, hisNode, ← hlevels]
          exact wp_mono (ih h hopen hsnoc.setPos hchild (update_self _ _ _) hsearch' hslot' hfuel')
            (fun _ _ hdone => hdone) fun _ w' hfail =>
              ⟨hfail.error, hfail.index, hfail.dirty, hfail.cause⟩

lemma indexLookup_spec (h : StoresTree w.index t) (hord : Ordered t.inorder) :
    wp (indexLookup env key) (LookedUp w t key)
      (LookupFailed env w (¬ LevelsLeft w.icx t key)) w := by
  have hlookup := ieLookup_correct key h.proper
  simp only [indexLookup, wp_bind, wp_setHeld, wp_request, wp_reads, IndexWorld.tick_index, h.root]
  refine ⟨fun hfail => ⟨by decide, rfl, rfl, .inr ⟨_, _, hfail, rfl⟩⟩, fun _ => ?_⟩
  cases hresult : ieLookup key (nodeOf t.shape) with
  | found pos =>
    rw [hresult] at hlookup
    exact ⟨rfl, rfl, rfl, .inl hlookup.1, none, t, pos, Place.root t key, (Path.nil t),
      update_self _ _ _, rfl, (fun v hv => by cases hv), rfl, rfl, (fun hv => by cases hv),
      fun _ => ⟨update_self _ _ _, hlookup.2⟩, fun hf => by cases hf⟩
  | notFound pos =>
    rw [hresult] at hlookup
    exact ⟨rfl, rfl, rfl, .inl (searchDepth_leaf hlookup.1), none, t, pos, Place.root t key,
      (Path.nil t), update_self _ _ _, rfl, (fun v hv => by cases hv), rfl, rfl,
      (fun hv => by cases hv), (fun hf => by cases hf), fun _ => hlookup⟩
  | keepSearching pos vcn =>
    rw [hresult] at hlookup
    obtain ⟨huniform, hsearch, c, hslot⟩ := hlookup
    have hdepth := searchDepth_slot hsearch hslot
    simp only [wp_bind, setParentPos, wp_modifyIcx, iaOpen, wp_setHeld, wp_request]
    refine ⟨fun hfail => ⟨by decide, rfl, rfl, .inr ⟨_, _, hfail, rfl⟩⟩, fun _ =>
      ⟨fun hfail => ⟨by decide, rfl, rfl, .inr ⟨_, _, hfail, rfl⟩⟩, fun _ => ?_⟩⟩
    refine wp_mono (descendLookup_spec h hord rfl (Path.nil t) (Place.root t key)
      (update_self _ _ _) hsearch hslot (Nat.le_add_left _ _)) (fun _ w' hdone => ?_)
      fun _ w' hfail => ⟨hfail.error, hfail.index, hfail.dirty, ?_⟩
    · obtain ⟨hindex, hdirty, hrefused, hlevels, hloc⟩ := hdone
      exact ⟨hindex, hdirty, hrefused, .inr hlevels, hloc⟩
    · refine hfail.cause.imp_left fun hdeep => ⟨hdeep.1, ?_⟩
      rintro (hzero | hlt)
      · rw [hdepth] at hzero
        cases hzero
      · exact absurd hlt (not_lt.mpr hdeep.2)

end Spec

end NtfsDxe
