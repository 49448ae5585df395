import NtfsDxe.Inode.References

/-! # Stale references

A reference whose sequence number is not that of the record is refused. The sequence number
comes back to a value after 65535 deletions only, unless a record is freed through an inode
that was read before another one of the same record was freed.
-/

namespace NtfsDxe

open Function RefSession

variable {α ν : Type*}

/-! ## What every history keeps -/

/-- The operations of histories keep `P`, whatever happens to the inodes in memory. -/
structure InodeStore.StableAlways (ops : NumberedRecords α ν) (P : InodeStore α → Prop) : Prop
    extends InodeStore.Stable ops.toRecordOps P where
  create : ∀ {s} (n), P s → P (s.create ops n)
  alter : ∀ {s} (a) (f : InodeCopy α → InodeCopy α), P s → P (s.alter a f)

namespace InodeStore.StableAlways

variable {ops : NumberedRecords α ν} {P : InodeStore α → Prop}

section

variable (h : StableAlways ops P)
include h

lemma mftRecordAlloc (hs : P s) : P (s.mftRecordAlloc ops n).1 := by
  rw [InodeStore.mftRecordAlloc]
  obtain ⟨s', ok, haccess, hs', _⟩ := h.accessed hs
  rw [haccess]
  cases ok with
  | false => exact hs'
  | true =>
    dsimp only
    split_ifs
    · exact hs'
    · exact h.create n hs'

lemma mftRecordFree (hsync : Keeps P sync) (hs : P s) : P (s.mftRecordFree ops sync a).1 := by
  have hdiscard : ∀ {s : InodeStore α} (old), P s → P (s.discard ops sync a old).1 := by
    intro s old hs
    rw [discard]
    obtain ⟨s', ok, haccess, hs', _⟩ := h.accessed hs
    rw [haccess]
    cases ok with
    | false => exact h.alter a _ (h.access hs')
    | true =>
      dsimp only
      split_ifs
      · exact h.realClose hsync s' a hs'
      · exact h.alter a _ (h.access (h.realClose hsync s' a hs'))
  rw [InodeStore.mftRecordFree]
  cases s.inodes a with
  | none => exact hs
  | some ni =>
    have hsynced : P (sync (s.markFree ops a) a).1 := hsync _ a (h.alter a _ hs)
    dsimp only
    split_ifs
    · exact hdiscard _ hsynced
    · exact h.alter a _ hsynced

lemma step (depth : Nat) {x : RefSession α} (hx : P x.store) (call : RefCall α) :
    P (x.step ops depth call).store := by
  have hsync := h.toStable.inodeSync depth
  cases call with
  | create n => exact h.mftRecordAlloc hx
  | inodeOpen ref => exact h.toStable.inodeOpen hx ref
  | modify a record list names =>
    rw [RefSession.step]
    split_ifs
    · exact h.alter a _ hx
    · exact hx
  | inodeSync a =>
    rw [RefSession.step]
    split_ifs
    · exact hsync _ a hx
    · exact hx
  | inodeClose a =>
    rw [RefSession.step]
    split_ifs
    · exact h.toStable.inodeClose hsync _ a hx
    · exact hx
  | invalidate n => exact h.toStable.invalidate hsync hx
  | free a =>
    rw [RefSession.step]
    split_ifs
    · exact h.mftRecordFree hsync hx
    · exact hx

lemma run (depth : Nat) {x : RefSession α} (hx : P x.store) (calls : List (RefCall α)) :
    P (x.run ops depth calls).store := by
  induction calls generalizing x with
  | nil => exact hx
  | cons call calls ih => exact ih (h.step depth hx call)

end

end InodeStore.StableAlways

/-- The entries of the cache have no inodes in any history. -/
lemma stableAlways_ni :
    InodeStore.StableAlways ops fun s => ∀ i, (s.cache.entry i).ni = none where
  access := fun h =>
    InodeStore.access_of_io (P := fun s => ∀ i, (s.cache.entry i).ni = none) h fun _ => h
  cache := fun h hni i => (hni i).trans (h i)
  load := fun _ h => h
  put := fun h _ _ _ => h
  writeBack := fun h _ => h
  release := fun _ h => h
  create := fun _ h => h
  alter := fun _ _ h => h

lemma stableAlways_io : InodeStore.StableAlways ops fun s => s.io = [] where
  access := by
    intro s h
    rw [InodeStore.access, h]
    exact h
  cache := fun h _ => h
  load := fun _ h => h
  put := fun h _ _ _ => h
  writeBack := fun h _ => h
  release := fun _ h => h
  create := fun _ h => h
  alter := fun _ _ h => h

/-! ## Opening a reference -/

/-- An inode that is opened has been read from the disk, with the sequence number of the
reference. -/
lemma inodeOpen_read {s : InodeStore α} (hni : ∀ i, (s.cache.entry i).ni = none)
    (hq : ref.seqNo ≠ 0) (hopen : (s.inodeOpen ops ref).2.isSome = true) :
    ref.seqNo = ops.seqNo (s.disk ref.mftNo) := by
  have hfetch := NidataCache.ni_fetchCache (c := s.cache) (n := ref.mftNo)
  rw [InodeStore.inodeOpen] at hopen
  cases hfound : s.cache.fetchCache ref.mftNo with
  | mk cache found =>
    rw [hfound] at hfetch hopen
    cases found with
    | some i =>
      dsimp only at hfetch hopen
      rw [hfetch, hni] at hopen
      cases hopen
    | none =>
      dsimp only at hopen
      rw [InodeStore.realOpen] at hopen
      generalize haccess : InodeStore.access { s with cache := cache } = accessed at hopen
      have hdisk : accessed.1.disk = s.disk := by
        rw [← haccess]
        exact InodeStore.access_of_io (P := (·.disk = s.disk)) rfl fun _ => rfl
      obtain ⟨s', ok⟩ := accessed
      cases ok with
      | false => cases hopen
      | true =>
        by_contra hne
        rw [← hdisk] at hne
        dsimp only at hopen
        rw [if_pos (show s'.refused ops ref from ⟨hq, hne⟩)] at hopen
        cases hopen

/-! ## The sequence number of a record -/

/-- The record `n` and all its inodes in memory have sequence number `q`. -/
structure InodeStore.SeqKnown (ops : NumberedRecords α ν) (n : Nat) (q : UInt16)
    (s : InodeStore α) : Prop where
  disk : ops.seqNo (s.disk n) = q
  inodes : ∀ {a ni}, s.inodes a = some ni → ni.mftNo = n → ops.seqNo ni.record = q

namespace InodeStore.SeqKnown

variable {ops : NumberedRecords α ν}

lemma update (h : SeqKnown ops n q s) (hdisk : s'.disk = s.disk)
    (hinodes : s'.inodes = update s.inodes b nj)
    (hnj : ∀ ni, nj = some ni → ni.mftNo = n → ops.seqNo ni.record = q) : SeqKnown ops n q s' where
  disk := by
    rw [hdisk]
    exact h.disk
  inodes := by
    intro a ni ha hno
    rw [hinodes] at ha
    by_cases hab : a = b
    · rw [hab, update_self] at ha
      exact hnj ni ha hno
    · rw [update_of_ne hab] at ha
      exact h.inodes ha hno

lemma alter (h : SeqKnown ops n q s) (a : Nat) (hno : ∀ ni, (f ni).mftNo = ni.mftNo)
    (hf : ∀ ni, s.inodes a = some ni → ni.mftNo = n → ops.seqNo (f ni).record = q) :
    SeqKnown ops n q (s.alter a f) := by
  refine h.update rfl rfl fun nj hnj hnumber => ?_
  obtain ⟨ni, hni, rfl⟩ := Option.map_eq_some_iff.mp hnj
  exact hf ni hni ((hno ni).symm.trans hnumber)

end InodeStore.SeqKnown

open InodeStore (SeqKnown)

/-- Opening, closing and synchronising inodes leave sequence numbers alone. -/
lemma stable_seqKnown (ops : NumberedRecords α ν) (n : Nat) (q : UInt16) :
    InodeStore.Stable ops.toRecordOps (SeqKnown ops n q) where
  access := fun h => InodeStore.access_of_io h fun _ => ⟨h.disk, h.inodes⟩
  cache := fun h _ => ⟨h.disk, h.inodes⟩
  load := by
    intro s m h
    refine h.update rfl rfl fun ni hni hno => ?_
    cases hni
    change m = n at hno
    rw [hno]
    exact h.disk
  put := by
    intro s a ni ni' h hni hno hsyncs
    refine h.update rfl rfl fun nj hnj hnumber => ?_
    cases hnj
    rw [ops.seqNo_syncsTo hsyncs]
    exact h.inodes hni (hno.symm.trans hnumber)
  writeBack := by
    intro s a ni h hni
    have hcopies : SeqKnown ops n q (s.put a { ni with dirty := false }) := by
      refine h.update rfl rfl fun nj hnj hnumber => ?_
      cases hnj
      change ops.seqNo ni.record = q
      exact h.inodes hni hnumber
    refine ⟨?_, hcopies.inodes⟩
    change ops.seqNo (update s.disk ni.mftNo ni.record n) = q
    by_cases hno : n = ni.mftNo
    · rw [hno, update_self]
      exact h.inodes hni hno.symm
    · rw [update_of_ne hno]
      exact h.disk
  release := by
    intro s a h
    refine h.update rfl rfl fun ni hni => ?_
    cases hni

/-! ## Freeing a record -/

section

variable {ops : NumberedRecords α ν} {s : InodeStore α}

lemma access_of_io (hio : s.io = []) : s.access = (s, true) := by
  rw [InodeStore.access, hio]

lemma inodeSync_unused (hio : s.io = []) (hni : s.inodes a = some ni)
    (huse : ops.inUse ni.record = false) :
    s.inodeSync ops.toRecordOps (depth + 1) a =
      (if ni.dirty then s.writeBack a ni else s, true) := by
  have hstandard : s.syncStandardInformation ops.toRecordOps a ni = (s, true) := by
    rw [InodeStore.syncStandardInformation, huse, if_neg Bool.false_ne_true]
  have hnames : ∀ close, s.syncFileNames ops.toRecordOps close a = (s, true) := by
    intro close
    simp only [InodeStore.syncFileNames, hni, huse, Bool.false_and, Bool.false_eq_true, if_false]
  have hlist : s.syncAttrList ops.toRecordOps a = (s, true) := by
    simp only [InodeStore.syncAttrList, hni, huse, Bool.false_and, Bool.false_eq_true, if_false]
  rw [InodeStore.inodeSync]
  simp only [InodeStore.syncSteps, hni, hstandard, hnames, hlist, InodeStore.syncRecord,
    access_of_io hio]
  split_ifs <;> rfl

/-- The inode that `ntfs_mft_record_free` writes. -/
def InodeCopy.freed (ops : NumberedRecords α ν) (ni : InodeCopy α) : InodeCopy α :=
  { ni with record := ops.mark false (nextSeqNo (ops.seqNo ni.record)) ni.record, dirty := true }

/-- Freeing writes the record and throws the inode away. -/
lemma mftRecordFree_eq (hio : s.io = []) (hni : s.inodes a = some ni) :
    s.mftRecordFree ops (InodeStore.inodeSync ops.toRecordOps (depth + 1)) a =
      (((s.put a (ni.freed ops)).writeBack a (ni.freed ops)).release a, true) := by
  have huse : ops.inUse (ni.freed ops).record = false := ops.inUse_mark ..
  have hmark : s.markFree ops a = s.put a (ni.freed ops) := InodeStore.alter_eq_put hni
  generalize hwritten : (s.put a (ni.freed ops)).writeBack a (ni.freed ops) = t
  have htio : t.io = [] := by
    rw [← hwritten]
    exact hio
  have htni : t.inodes a = some { ni.freed ops with dirty := false } := by
    rw [← hwritten]
    exact update_self ..
  have hput : (s.put a (ni.freed ops)).inodes a = some (ni.freed ops) := update_self ..
  have hputio : (s.put a (ni.freed ops)).io = [] := hio
  have hsync : (s.put a (ni.freed ops)).inodeSync ops.toRecordOps (depth + 1) a = (t, true) := by
    rw [← hwritten]
    exact inodeSync_unused hputio hput huse
  have hagain : t.inodeSync ops.toRecordOps (depth + 1) a = (t, true) :=
    inodeSync_unused htio htni huse
  have hclose : t.realClose (InodeStore.inodeSync ops.toRecordOps (depth + 1)) a =
      (t.release a, true) := by
    simp only [InodeStore.realClose, htni, hagain]
    split_ifs <;> rfl
  simp only [InodeStore.mftRecordFree, hni, hmark, hsync, if_true, InodeStore.discard,
    access_of_io htio, hclose]

/-- There is no other inode of the record of the inode at `a` in memory. -/
def InodeStore.Alone (s : InodeStore α) (a : Nat) : Prop :=
  ∀ ni b nj, s.inodes a = some ni → s.inodes b = some nj → nj.mftNo = ni.mftNo → b = a

/-- Freeing the only inode of a record advances its sequence number, and no other one. -/
lemma seqKnown_mftRecordFree (depth : Nat) (h : SeqKnown ops n q s)
    (hio : s.io = []) (hni : s.inodes a = some ni) (halone : s.Alone a) :
    SeqKnown ops n (if ni.mftNo = n then nextSeqNo q else q)
      (s.mftRecordFree ops (InodeStore.inodeSync ops.toRecordOps (depth + 1)) a).1 := by
  rw [mftRecordFree_eq hio hni]
  constructor
  · change ops.seqNo (update s.disk ni.mftNo (ni.freed ops).record n) = _
    by_cases hno : ni.mftNo = n
    · rw [if_pos hno, hno, update_self]
      refine (ops.seqNo_mark ..).trans ?_
      rw [h.inodes hni hno]
    · rw [if_neg hno, update_of_ne (Ne.symm hno)]
      exact h.disk
  · intro b nj hb hnumber
    by_cases hba : b = a
    · rw [hba] at hb
      simp only [InodeStore.release, update_self] at hb
      cases hb
    · have hold : s.inodes b = some nj := by
        simpa only [InodeStore.release, InodeStore.writeBack, InodeStore.put,
          update_of_ne hba] using hb
      rw [if_neg fun hno => hba (halone ni b nj hni hold (hnumber.trans hno.symm))]
      exact h.inodes hold hnumber

end

/-! ## Histories -/

section

variable {ops : NumberedRecords α ν}

lemma seqKnown_mftRecordAlloc (h : SeqKnown ops n q s) (hq : q ≠ 0) :
    SeqKnown ops n q (s.mftRecordAlloc ops m).1 := by
  rw [InodeStore.mftRecordAlloc]
  obtain ⟨s', ok, haccess, hs', _⟩ := (stable_seqKnown ops n q).accessed h
  rw [haccess]
  cases ok with
  | false => exact hs'
  | true =>
    dsimp only
    split_ifs
    · exact hs'
    · refine hs'.update rfl rfl fun ni hni hno => ?_
      cases hni
      change m = n at hno
      rw [InodeStore.newRecord, hno, hs'.disk, if_pos hq]
      exact ops.seqNo_mark ..

def RefSession.FreesAlone (x : RefSession α) : RefCall α → Prop
  | .free a => a ∈ x.held → x.store.Alone a
  | _ => True

/-- All calls of a history free only inodes that are alone. -/
def RefSession.AllFreesAlone (ops : NumberedRecords α ν) (depth : Nat) :
    RefSession α → List (RefCall α) → Prop
  | _, [] => True
  | x, call :: calls =>
    x.FreesAlone call ∧ (x.step ops depth call).AllFreesAlone ops depth calls

section

variable (depth : Nat) {x : RefSession α} (h : SeqKnown ops n q x.store) (hio : x.store.io = [])
  (hq : q ≠ 0)
include h hio hq

/-- One call advances the sequence number of the record that it frees. -/
lemma seqKnown_step (call : RefCall α) (halone : x.FreesAlone call) :
    SeqKnown ops n (nextSeqNo^[x.frees n call] q) (x.step ops (depth + 1) call).store := by
  have hstable := stable_seqKnown ops n q
  have hsync := hstable.inodeSync (depth + 1)
  cases call with
  | create m => exact seqKnown_mftRecordAlloc h hq
  | inodeOpen ref => exact hstable.inodeOpen h ref
  | modify a record list names =>
    rw [step]
    split_ifs
    · refine h.alter a (fun ni => ?_) fun ni hni hno => ?_
      · unfold InodeCopy.changeTo
        split_ifs <;> rfl
      · unfold InodeCopy.changeTo
        split_ifs with hsame
        · exact hsame.trans (h.inodes hni hno)
        · exact h.inodes hni hno
    · exact h
  | inodeSync a =>
    rw [step]
    split_ifs
    · exact hsync _ a h
    · exact h
  | inodeClose a =>
    rw [step]
    split_ifs
    · exact hstable.inodeClose hsync _ a h
    · exact h
  | invalidate m => exact hstable.invalidate hsync h
  | free a =>
    rw [step, frees]
    by_cases hheld : a ∈ x.held
    · rw [if_pos hheld]
      cases hni : x.store.inodes a with
      | none =>
        rw [if_neg (by simp), InodeStore.mftRecordFree, hni]
        exact h
      | some ni =>
        have hfreed := seqKnown_mftRecordFree depth h hio hni (halone hheld)
        by_cases hno : ni.mftNo = n
        · rw [if_pos hno] at hfreed
          rw [if_pos ⟨hheld, by simpa using hno⟩]
          exact hfreed
        · rw [if_neg hno] at hfreed
          rw [if_neg (by simpa [hheld] using hno)]
          exact hfreed
    · rw [if_neg hheld, if_neg fun hand => hheld hand.1]
      exact h

/-- A history advances the sequence number of a record by one for each time that it is
freed. -/
lemma seqKnown_run (halone : x.AllFreesAlone ops (depth + 1) calls) :
    SeqKnown ops n (nextSeqNo^[x.freed ops (depth + 1) n calls] q)
      (x.run ops (depth + 1) calls).store := by
  induction calls generalizing x q with
  | nil => exact h
  | cons call calls ih =>
    have hstep := seqKnown_step depth h hio hq call halone.1
    have hrest := ih hstep (stableAlways_io.step (depth + 1) hio call)
      (iterate_nextSeqNo_ne_zero hq) halone.2
    rw [← Function.iterate_add_apply, Nat.add_comm] at hrest
    exact hrest

end

end

def RefSession.Current (ops : NumberedRecords α ν) (x : RefSession α) (ref : MftRef) : Prop :=
  ref.seqNo = ops.seqNo (x.store.disk ref.mftNo)

/-- `ntfs_inode_open` of the reference returns an inode. -/
def RefSession.Opens (ops : NumberedRecords α ν) (x : RefSession α) (ref : MftRef) : Prop :=
  (x.store.inodeOpen ops.toRecordOps ref).2.isSome = true

/-- A record with its flag and sequence number only. -/
structure BareRecord where
  inUse : Bool
  seqNo : UInt16

def bareRecords : NumberedRecords BareRecord Empty where
  inUse := BareRecord.inUse
  is4 := fun _ => false
  hasAttrList := fun _ => false
  fileNames := fun _ => []
  parent := fun _ => ⟨5, 0⟩
  syncStandard := id
  updateEntry := fun _ _ _ => none
  setNameSize := fun _ => id
  seqNo := BareRecord.seqNo
  mark := fun use q _ => ⟨use, q⟩
  laidOut := fun _ => ⟨false, 1⟩
  seqNo_mark := fun _ _ _ => rfl
  inUse_mark := fun _ _ _ => rfl
  seqNo_syncsTo := by
    intro r r' h
    cases h with
    | same => rfl
    | standard => rfl
    | entry h => cases h
    | nameSize name => rfl

/-- A volume without files. -/
def bareVolume : RefSession BareRecord := .mounted (fun _ => ⟨false, 1⟩) true []

/-- A file has been created in record 64. -/
def oneFile : RefSession BareRecord := bareVolume.run bareRecords 1 [.create 64, .inodeSync 0]

/-- The file is deleted, and another one is created and written in its place. -/
def replacing : List (RefCall BareRecord) := [.free 0, .create 64, .inodeSync 1]

lemma oneFile_inodes (h : oneFile.store.inodes a = some ni) :
    a = 0 ∧ ni = ⟨64, ⟨true, 1⟩, false, false, false⟩ := by
  by_cases ha : a = 0
  · subst ha
    exact ⟨rfl, (Option.some.inj h).symm⟩
  · have hnone : oneFile.store.inodes a = none := by
      simp [oneFile, bareVolume, RefSession.run, RefSession.step, RefSession.give,
        InodeStore.mftRecordAlloc, InodeStore.access, InodeStore.create, RefSession.mounted,
        InodeStore.mounted, bareRecords, InodeStore.inodeSync, InodeStore.syncSteps,
        InodeStore.syncStandardInformation, InodeStore.syncFileNames, InodeStore.syncAttrList,
        InodeStore.syncRecord, InodeStore.put, InodeStore.writeBack, InodeStore.newRecord, ha]
    rw [hnone] at h
    cases h

/-- The file of `oneFile` is opened a second time, deleted, and replaced by another file. -/
def reopenedFile : RefSession BareRecord :=
  oneFile.run bareRecords 1 [.inodeOpen ⟨64, 1⟩, .free 0, .create 64, .inodeSync 2]

/-- The other file is deleted through the inode that was read before the first deletion, and a
third file is created, which has the sequence number of the second one. -/
def replacingAgain : List (RefCall BareRecord) := [.free 1, .create 64, .inodeSync 3]

end NtfsDxe
