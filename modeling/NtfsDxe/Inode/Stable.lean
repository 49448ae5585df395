import NtfsDxe.Inode.Copies

/-! # What the inode functions keep

The functions that open, close and synchronise inodes change the store by a few operations.
A property of stores that each of them keeps is kept by the functions.
-/

namespace NtfsDxe

variable {α ν : Type*}

inductive RecordOps.SyncsTo (ops : RecordOps α ν) (r : α) : α → Prop where
  | same : ops.SyncsTo r r
  | standard : ops.SyncsTo r (ops.syncStandard r)
  | entry {name : ν} {child r' : α} (h : ops.updateEntry name child r = some r') :
      ops.SyncsTo r r'
  | nameSize (name : ν) : ops.SyncsTo r (ops.setNameSize name r)

namespace InodeStore

/-- The operations on stores keep `P`. -/
structure Stable (ops : RecordOps α ν) (P : InodeStore α → Prop) : Prop where
  access : ∀ {s}, P s → P s.access.1
  cache : ∀ {s c}, P s → (∀ i, (c.entry i).ni = (s.cache.entry i).ni) →
    P { s with cache := c }
  load : ∀ {s} (n), P s → P (s.load n)
  put : ∀ {s a ni ni'}, P s → s.inodes a = some ni → ni'.mftNo = ni.mftNo →
    ops.SyncsTo ni.record ni'.record → P (s.put a ni')
  writeBack : ∀ {s a ni}, P s → s.inodes a = some ni → P (s.writeBack a ni)
  release : ∀ {s} (a), P s → P (s.release a)

lemma access_of_io {P : InodeStore α → Prop} (hs : P s) (hio : ∀ io, P { s with io := io }) :
    P s.access.1 := by
  rw [access]
  cases s.io with
  | nil => exact hs
  | cons ok io => exact hio io

/-- A function on stores keeps `P`. -/
def Keeps (P : InodeStore α → Prop) (g : InodeStore α → Nat → InodeStore α × Bool) : Prop :=
  ∀ s a, P s → P (g s a).1

namespace Stable

variable {ops : RecordOps α ν} {P : InodeStore α → Prop}

section

variable (h : Stable ops P)
include h

lemma accessed (hs : P s) : ∃ s' ok, s.access = (s', ok) ∧ P s' ∧ s'.inodes = s.inodes :=
  ⟨_, _, rfl, h.access hs, access_of_io (P := (·.inodes = s.inodes)) rfl fun _ => rfl⟩

/-- A change of the inode at `a` by a function that keeps its number. -/
lemma alter (hs : P s) (a : Nat) (hno : ∀ ni, (f ni).mftNo = ni.mftNo)
    (hf : ∀ ni, ops.SyncsTo ni.record (f ni).record) : P (s.alter a f) := by
  cases hni : s.inodes a with
  | none =>
    have hsame : s.alter a f = s := by
      rw [InodeStore.alter, hni, Option.map_none, ← hni, Function.update_eq_self]
    rwa [hsame]
  | some ni =>
    rw [alter_eq_put hni]
    exact h.put hs hni (hno ni) (hf ni)

lemma realOpen (hs : P s) : P (s.realOpen ops ref).1 := by
  rw [InodeStore.realOpen]
  obtain ⟨s', ok, haccess, hs', _⟩ := h.accessed hs
  rw [haccess]
  cases ok with
  | false => exact hs'
  | true =>
    dsimp only
    split_ifs
    · exact hs'
    · exact h.load ref.mftNo hs'
    · exact hs'

lemma inodeOpen (hs : P s) (ref : MftRef) : P (s.inodeOpen ops ref).1 := by
  have hfetch := NidataCache.ni_fetchCache (c := s.cache) (n := ref.mftNo)
  rw [InodeStore.inodeOpen]
  cases hfound : s.cache.fetchCache ref.mftNo with
  | mk cache found =>
    rw [hfound] at hfetch
    cases found with
    | none => exact h.realOpen (h.cache hs hfetch)
    | some i =>
      exact h.cache hs fun j => (NidataCache.ni_dropHashIndex j).trans (hfetch j)

lemma realClose (hsync : Keeps P sync) : Keeps P (realClose sync) := by
  intro s a hs
  rw [InodeStore.realClose]
  cases s.inodes a with
  | none => exact hs
  | some ni =>
    dsimp only
    split_ifs
    · exact h.release a (hsync s a hs)
    · exact hsync s a hs
    · exact h.release a hs

lemma nidataFree (hsync : Keeps P sync) (hs : P s) (i : Nat) : P (s.nidataFree sync i) := by
  rw [InodeStore.nidataFree]
  split
  · exact hs
  · exact h.realClose hsync s _ hs

lemma enterCache (hsync : Keeps P sync) (hs : P s) (item : CachedNidata) :
    P (s.enterCache sync item) := by
  rw [InodeStore.enterCache]
  cases s.cache.search item.inum with
  | some i => exact hs
  | none =>
    have hni := NidataCache.ni_takeEntry (c := s.cache)
    cases htaken : s.cache.takeEntry with
    | mk cache taken =>
      rw [htaken] at hni
      cases taken with
      | none => exact hs
      | some taken =>
        obtain ⟨i, used⟩ := taken
        have htake := h.cache hs hni
        refine h.cache ?_ NidataCache.ni_fill
        split_ifs
        · exact h.nidataFree hsync htake i
        · exact htake

lemma invalidate (hsync : Keeps P sync) (hs : P s) : P (s.invalidate sync n) := by
  have hrounds : ∀ (l : List Nat) (s : InodeStore α), P s →
      P (l.foldl (invalidateEntry sync) s) := by
    intro l
    induction l with
    | nil => exact fun _ hs => hs
    | cons i l ih =>
      intro s hs
      apply ih
      refine h.cache ?_ fun _ => rfl
      exact h.nidataFree hsync (h.cache hs NidataCache.ni_dropHashIndex) i
  rw [InodeStore.invalidate]
  split_ifs
  · exact hrounds _ s hs
  · exact hrounds _ _ (hrounds _ s hs)
  · exact hrounds _ s hs

lemma inodeClose (hsync : Keeps P sync) : Keeps P (inodeClose ops sync) := by
  intro s a hs
  rw [InodeStore.inodeClose]
  cases s.inodes a with
  | none => exact hs
  | some ni =>
    dsimp only
    split_ifs
    · exact h.release a (h.enterCache hsync (hsync s a hs) _)
    · exact h.realClose hsync _ a (hsync s a hs)
    · exact h.release a (h.enterCache hsync hs _)
    · exact h.realClose hsync s a hs

lemma syncStandardInformation (hs : P s) (hni : s.inodes a = some ni) : P
    (s.syncStandardInformation ops a ni).1 := by
  rw [InodeStore.syncStandardInformation]
  split_ifs
  · obtain ⟨s', ok, haccess, hs', hinodes⟩ := h.accessed hs
    rw [haccess]
    cases ok with
    | false => exact hs'
    | true => exact h.put hs' ((congrFun hinodes a).trans hni) rfl .standard
  · exact hs

lemma updateIndex (hs : P s) : P (s.updateIndex ops a d name).1 := by
  have hsize : ∀ {s : InodeStore α}, P s →
      P (s.alter a fun ni => { ni with record := ops.setNameSize name ni.record }) :=
    fun hs => h.alter hs a (fun _ => rfl) fun _ => .nameSize name
  rw [InodeStore.updateIndex]
  obtain ⟨s', ok, haccess, hs', _⟩ := h.accessed hs
  rw [haccess]
  cases ok with
  | false => exact hs'
  | true =>
    dsimp only
    cases s'.inodes a with
    | none => exact hs'
    | some ni =>
      cases hdir : s'.inodes d with
      | none => exact hs'
      | some dir =>
        dsimp only
        cases hentry : ops.updateEntry name ni.record dir.record with
        | none => exact hsize hs'
        | some r => exact hsize (h.put hs' hdir rfl (.entry hentry))

lemma syncName (hclose : Keeps P close) (hs : P s) (a n : Nat) (name : ν) :
    P (s.syncName ops close a n name).1 := by
  rw [InodeStore.syncName]
  split_ifs
  · exact h.updateIndex hs
  · have hopen := h.inodeOpen hs (ops.parent name)
    cases hopened : s.inodeOpen ops (ops.parent name) with
    | mk s' found =>
      rw [hopened] at hopen
      cases found with
      | none => exact hopen
      | some d => exact hclose _ d (h.updateIndex hopen)

lemma syncFileName (hclose : Keeps P close) (a n : Nat) (names : List ν) :
    ∀ {s}, P s → P (syncFileName ops close a n s names).1 := by
  induction names with
  | nil => exact fun hs => hs
  | cons name names ih => exact fun hs => ih (h.syncName hclose hs a n name)

lemma syncFileNames (hclose : Keeps P close) : Keeps P (syncFileNames ops close) := by
  intro s a hs
  rw [InodeStore.syncFileNames]
  cases hni : s.inodes a with
  | none => exact hs
  | some ni =>
    dsimp only
    have hput : P (s.put a { ni with fileNameDirty := false }) := h.put hs hni rfl .same
    have hloop := h.syncFileName hclose a ni.mftNo (ops.fileNames ni.record) hput
    split_ifs
    · exact hloop
    · exact h.alter hloop a (fun _ => rfl) fun _ => .same
    · exact hs

lemma syncAttrList : Keeps P (syncAttrList ops) := by
  intro s a hs
  rw [InodeStore.syncAttrList]
  cases hni : s.inodes a with
  | none => exact hs
  | some ni =>
    dsimp only
    split_ifs
    · obtain ⟨s', ok, haccess, hs', hinodes⟩ := h.accessed hs
      rw [haccess]
      cases ok with
      | false => exact hs'
      | true => exact h.put hs' ((congrFun hinodes a).trans hni) rfl .same
    · exact hs

lemma syncRecord : Keeps P syncRecord := by
  intro s a hs
  rw [InodeStore.syncRecord]
  cases hni : s.inodes a with
  | none => exact hs
  | some ni =>
    dsimp only
    split_ifs
    · obtain ⟨s', ok, haccess, hs', hinodes⟩ := h.accessed hs
      rw [haccess]
      cases ok with
      | false => exact hs'
      | true => exact h.writeBack hs' ((congrFun hinodes a).trans hni)
    · exact hs

lemma syncSteps (hclose : Keeps P close) : Keeps P (syncSteps ops close) := by
  intro s a hs
  rw [InodeStore.syncSteps]
  cases hni : s.inodes a with
  | none => exact hs
  | some ni =>
    exact h.syncRecord _ a (h.syncAttrList _ a (h.syncFileNames hclose _ a
      (h.syncStandardInformation hs hni)))

lemma inodeSync (depth : Nat) : Keeps P (inodeSync ops depth) := by
  induction depth with
  | zero => exact fun _ _ hs => hs
  | succ depth ih => exact h.syncSteps (h.inodeClose ih)

end

end Stable

end InodeStore

end NtfsDxe
