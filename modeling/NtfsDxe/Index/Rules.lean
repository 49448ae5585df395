import NtfsDxe.Index.Represent

/-! # Rules for the basic operations on an index

The operations that ask the environment for something are described by what they
do if the request is granted; if it is not, the index and the context stay as
they are, and the refusal is noted. An operation that succeeds in spite of a
refusal is one that gives up a reserved block.
-/

namespace NtfsDxe

open Foundation ItemTree Prog List

variable {K P : Type}

def IndexWorld.tick (w : IndexWorld K P) : IndexWorld K P := { w with clock := w.clock + 1 }

@[simp] lemma IndexWorld.tick_index (w : IndexWorld K P) : w.tick.index = w.index := rfl

@[simp] lemma IndexWorld.tick_icx (w : IndexWorld K P) : w.tick.icx = w.icx := rfl

/-- The world after a request that was refused. -/
def IndexWorld.refuse (r : Request) (w : IndexWorld K P) : IndexWorld K P :=
  { w.tick with refused := r :: w.refused }

def NoFaults (env : IndexEnv K) : Prop := ∀ r n, env.fails r n = false

variable {w : IndexWorld K P}

@[simp] lemma wp_setHeld : wp (setHeld field state) Q E w ↔
    Q () { w with icx := { w.icx with held := Function.update w.icx.held field state } } := Iff.rfl

@[simp] lemma wp_modifyIcx : wp (modifyIcx f) Q E w ↔ Q () { w with icx := f w.icx } := Iff.rfl

@[simp] lemma wp_modifyIndex :
    wp (modifyIndex f) Q E w ↔ Q () { w with index := f w.index } := Iff.rfl

@[simp] lemma wp_request (r : Request) :
    wp (request env r) Q E w ↔ (env.fails r w.clock = true → E (.errno .enomem) (w.refuse r)) ∧
      (env.fails r w.clock = false → Q () w.tick) := by
  simp only [request, wp_bind, wp_reads]
  cases env.fails r w.clock <;> simp [IndexWorld.tick, IndexWorld.refuse]

section Release

variable (field : Owned) (w : IndexWorld K P)

@[simp] lemma IndexWorld.release_index : (w.release field).index = w.index := by
  unfold IndexWorld.release
  split <;> rfl

@[simp] lemma IndexWorld.release_refused : (w.release field).refused = w.refused := by
  unfold IndexWorld.release
  split <;> rfl

@[simp] lemma IndexWorld.release_ibDirty :
    (w.release field).icx.ibDirty = w.icx.ibDirty := by
  unfold IndexWorld.release
  split <;> rfl

@[simp] lemma IndexWorld.release_pindex : (w.release field).icx.pindex = w.icx.pindex := by
  unfold IndexWorld.release
  split <;> rfl

lemma IndexWorld.release_held (hne : other ≠ field) :
    (w.release field).icx.held other = w.icx.held other := by
  unfold IndexWorld.release
  split
  · rfl
  · exact Function.update_of_ne hne _ _
  · rfl

end Release

lemma wp_ibRead (hopen : w.icx.held .iaNa = .opened) (hnode : w.index.blocks v = some node)
    (hfail : env.fails .read w.clock = true → E (.errno .enomem) (w.refuse .read))
    (hok : env.fails .read w.clock = false → Q node w.tick) : wp (ibRead env v) Q E w := by
  simp only [ibRead, wp_bind, wp_reads, id, hopen, if_true, wp_request, hnode]
  exact ⟨hfail, hok⟩

def IndexWorld.putBlock (w : IndexWorld K P) (v : Nat) (node : IndexNode K P) : IndexWorld K P :=
  { w with index := { w.index with blocks := Function.update w.index.blocks v (some node) } }

lemma wp_ibWrite (hfail : w.icx.held .iaNa = .opened → env.fails (.write fresh) w.clock = true →
      E (.errno .enomem) (w.refuse (.write fresh)))
    (hclosed : w.icx.held .iaNa ≠ .opened → E .notOpen w)
    (hok : w.icx.held .iaNa = .opened → env.fails (.write fresh) w.clock = false →
      Q () (w.tick.putBlock v node)) : wp (ibWrite env fresh v node) Q E w := by
  simp only [ibWrite, wp_bind, wp_reads, wp_ite, wp_request]
  split
  · next hopen => exact ⟨hfail hopen, hok hopen⟩
  · next hopen => exact hclosed hopen

/-! ## Reserving and releasing blocks -/

section Bitmap

variable {bits : List Bool}

/-- The bitmap before a bit is set: it is enlarged if the bit is beyond its end. -/
def roomFor (bits : List Bool) (v : Nat) : List Bool :=
  if bits.length ≤ v then growBits bits else bits

lemma getD_growBits : (growBits bits).getD v false = bits.getD v false := by
  unfold growBits
  rw [getD_eq_getElem?_getD, getD_eq_getElem?_getD, getElem?_append]
  split
  · rfl
  · next hv =>
      rw [getElem?_eq_none (le_of_not_gt hv), getElem?_replicate]
      split <;> rfl

lemma getD_roomFor : (roomFor bits v).getD u false = bits.getD u false := by
  unfold roomFor
  split
  · exact getD_growBits
  · rfl

/-- Enlarging the bitmap makes room for the bit after its end. -/
lemma lt_length_roomFor (hv : v ≤ bits.length) : v < (roomFor bits v).length := by
  unfold roomFor
  split
  · rw [growBits, length_append, length_replicate]
    omega
  · next h => exact lt_of_not_ge h

/-- Setting a bit, with the bitmap enlarged if needed. -/
lemma wp_ibmSet (hbits : w.index.bitmap = some bits) (hlen : v < (roomFor bits v).length)
    (hok : ∀ n, Q () { w with
      clock := n
      index := { w.index with bitmap := some ((roomFor bits v).set v true) } }) :
    wp (ibmModify env v true) Q (fun _ _ => True) w := by
  simp only [ibmModify, wp_bind, wp_request, wp_reads, IndexWorld.tick_index, hbits, wp_ite,
    wp_modifyIndex, true_and]
  refine ⟨fun _ => trivial, fun _ => ?_⟩
  unfold roomFor at hlen hok
  split
  · next hgrow =>
      rw [if_pos hgrow] at hlen hok
      refine ⟨fun _ => trivial, fun _ => ?_⟩
      rw [if_pos hlen]
      exact hok _
  · next hgrow =>
      rw [if_neg hgrow] at hlen hok
      rw [if_pos hlen]
      exact hok _

/-- Clearing a bit of the bitmap fails just if the bitmap is refused. -/
lemma wp_ibmClear (hbits : w.index.bitmap = some bits) (hlen : v < bits.length)
    (herr : E (.errno .enomem) (w.refuse (.bitmap false)))
    (hok : Q () { w.tick with
      index := { w.index with bitmap := some (bits.set v false) } }) :
    wp (ibmModify env v false) Q E w := by
  simp only [ibmModify, wp_bind, wp_request, wp_reads, IndexWorld.tick_index, hbits,
    wp_modifyIndex, Bool.false_eq_true, false_and, if_false, if_pos hlen]
  exact ⟨fun _ => herr, fun _ => hok⟩

lemma getD_firstClear : bits.getD (firstClear bits) false = false := by
  induction bits with
  | nil => rfl
  | cons b bits ih =>
    rw [firstClear]
    split
    · exact ih
    · next h => exact Bool.not_eq_true b ▸ h

lemma firstClear_le (bits : List Bool) : firstClear bits ≤ bits.length := by
  induction bits with
  | nil => exact le_refl 0
  | cons b bits ih =>
    rw [firstClear]
    split
    · exact Nat.succ_le_succ ih
    · exact Nat.zero_le _

/-- A block that is reserved was not marked before. -/
lemma ibmGetFree_spec (h : Holds env w.index extra t) :
    wp (ibmGetFree env)
      (fun v w' => Holds env w'.index (v :: extra) t ∧ w'.icx = w.icx ∧ w'.refused = w.refused)
      (fun _ _ => True) w := by
  simp only [ibmGetFree, wp_bind, wp_request, wp_reads, IndexWorld.tick_index]
  refine ⟨fun _ => trivial, fun _ => ?_⟩
  cases hbits : w.index.bitmap with
  | none => trivial
  | some bits =>
    have hin : ∀ u, bits.getD u false = true ↔ u ∈ t.refs ++ extra := by
      intro u
      rw [← h.inUse u, StoredIndex.inUse, hbits]
      rfl
    have hfree : firstClear bits ∉ t.refs ++ extra := by
      rw [← hin, getD_firstClear]
      exact Bool.false_ne_true
    have hperm : (t.refs ++ firstClear bits :: extra).Perm (firstClear bits :: (t.refs ++ extra)) :=
      perm_middle
    have hlen := lt_length_roomFor (firstClear_le bits)
    rw [wp_bind]
    refine wp_ibmSet hbits hlen fun n => ?_
    refine ⟨h.rebit (hperm.nodup_iff.mpr (nodup_cons.mpr ⟨hfree, h.nodup⟩)) ?_, rfl, rfl⟩
    intro u
    rw [hperm.mem_iff, mem_cons, ← hin u]
    change ((roomFor bits _).set _ true).getD u false = true ↔ _
    by_cases hu : u = firstClear bits
    · subst hu
      rw [getD_set_self _ hlen]
      simp
    · rw [getD_set_ne _ (Ne.symm hu), getD_roomFor]
      simp [hu]

/-- Giving up a reserved block: its bit is cleared, or this is refused. -/
lemma giveUp_spec (h : Holds env w.index (v :: extra) t) :
    wp (attempt (ibmModify env v false))
      (fun _ w' => (Holds env w'.index extra t ∧ w'.refused = w.refused ∨
        Holds env w'.index (v :: extra) t ∧ w'.refused = .bitmap false :: w.refused) ∧
        w'.icx = w.icx) E w := by
  rw [wp_attempt]
  cases hbits : w.index.bitmap with
  | none =>
    have hin := (h.inUse v).mpr (by simp)
    rw [StoredIndex.inUse, hbits] at hin
    cases hin
  | some bits =>
    have hin : ∀ u, bits.getD u false = true ↔ u ∈ t.refs ++ v :: extra := by
      intro u
      rw [← h.inUse u, StoredIndex.inUse, hbits]
      rfl
    have hperm : (t.refs ++ v :: extra).Perm (v :: (t.refs ++ extra)) := perm_middle
    have hnodup := nodup_cons.mp (hperm.nodup_iff.mp h.nodup)
    have hlen : v < bits.length := by
      by_contra hge
      have hset := (hin v).mpr (by simp)
      rw [getD_eq_getElem?_getD, getElem?_eq_none (le_of_not_gt hge)] at hset
      cases hset
    refine wp_ibmClear hbits hlen ⟨.inr ⟨h, rfl⟩, rfl⟩ ⟨.inl ⟨h.rebit hnodup.2 ?_, rfl⟩, rfl⟩
    intro u
    change (bits.set v false).getD u false = true ↔ _
    by_cases hu : u = v
    · subst hu
      rw [getD_set_self _ hlen]
      simpa using hnodup.1
    · rw [getD_set_ne _ (Ne.symm hu), hin u]
      simp [hu]

end Bitmap

end NtfsDxe
