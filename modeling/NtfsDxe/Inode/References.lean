import NtfsDxe.Inode.Stable
import Mathlib.Logic.Function.Iterate

/-! # References to files

A reference to a file has the number of its record and the sequence number that the record
had when the reference was made. `ntfs_file_record_read` compares it with the sequence number
of the record, which `ntfs_mft_record_free` advances.
-/

namespace NtfsDxe

open InodeStore

variable {α ν : Type*}

/-- Records with sequence numbers. `mark` sets the flag of the records in use and the sequence
number; `laidOut` is what `ntfs_mft_record_layout` makes. -/
structure NumberedRecords (α ν : Type*) extends RecordOps α ν where
  mark : Bool → UInt16 → α → α
  laidOut : Nat → α
  seqNo_mark : ∀ use q r, seqNo (mark use q r) = q
  inUse_mark : ∀ use q r, inUse (mark use q r) = use
  seqNo_syncsTo : ∀ {r r'}, toRecordOps.SyncsTo r r' → seqNo r' = seqNo r

/-- The sequence number of a record that is freed: zero is skipped, and kept. -/
def nextSeqNo (q : UInt16) : UInt16 := if q = 0xffff then 1 else if q ≠ 0 then q + 1 else q

/-! ## Sequence numbers -/

lemma toNat_nextSeqNo (hq : q ≠ 0) : (nextSeqNo q).toNat = q.toNat % 65535 + 1 := by
  have hlt := q.toNat_lt
  unfold nextSeqNo
  by_cases hlast : q = 0xffff
  · rw [hlast]
    rfl
  · have hne : q.toNat ≠ 65535 := fun h => hlast (UInt16.toNat_inj.mp h)
    rw [if_neg hlast, if_pos hq, UInt16.toNat_add, UInt16.toNat_one]
    omega

lemma nextSeqNo_ne_zero (hq : q ≠ 0) : nextSeqNo q ≠ 0 := by
  intro h
  have hnat := toNat_nextSeqNo hq
  rw [h, UInt16.toNat_zero] at hnat
  omega

lemma iterate_nextSeqNo_ne_zero (hq : q ≠ 0) : nextSeqNo^[k] q ≠ 0 := by
  induction k with
  | zero => exact hq
  | succ k ih =>
    rw [Function.iterate_succ_apply']
    exact nextSeqNo_ne_zero ih

/-- The sequence numbers other than zero run through a cycle of 65535. -/
lemma iterate_nextSeqNo_eq_iff (hq : q ≠ 0) : nextSeqNo^[k] q = q ↔ 65535 ∣ k := by
  have hpos : 0 < q.toNat := by
    apply Nat.pos_of_ne_zero
    intro h
    exact hq (UInt16.toNat_inj.mp h)
  have hlt := q.toNat_lt
  have hiter : ∀ k, (nextSeqNo^[k] q).toNat = (q.toNat - 1 + k) % 65535 + 1 := by
    intro k
    induction k with
    | zero =>
      rw [Function.iterate_zero_apply]
      omega
    | succ k ih =>
      rw [Function.iterate_succ_apply', toNat_nextSeqNo (iterate_nextSeqNo_ne_zero hq)]
      omega
  rw [← UInt16.toNat_inj, hiter]
  omega

/-! ## Allocating and freeing -/

namespace InodeStore

variable (ops : NumberedRecords α ν)

section

variable (s : InodeStore α)

/-- The record of a new file in record `n`, which keeps the sequence number if it is not
zero. -/
def newRecord (n : Nat) : α :=
  if ops.seqNo (s.disk n) ≠ 0 then ops.mark true (ops.seqNo (s.disk n)) (ops.laidOut n)
  else ops.mark true (ops.seqNo (ops.laidOut n)) (ops.laidOut n)

/-- A new inode in record `n`, to be written later. -/
def create (n : Nat) : InodeStore α :=
  { s with
    inodes := Function.update s.inodes s.next (some ⟨n, s.newRecord ops n, true, false, false⟩)
    next := s.next + 1 }

/-- `ntfs_mft_record_alloc` of record `n`: a record that is in use is passed over. -/
def mftRecordAlloc (n : Nat) : InodeStore α × Option Nat :=
  match s.access with
  | (s, false) => (s, none)
  | (s, true) =>
    if ops.inUse (s.disk n) then (s, none) else (s.create ops n, some s.next)

end

section Free

variable (sync : InodeStore α → Nat → InodeStore α × Bool)

section

variable (s : InodeStore α) (a : Nat)

/-- The inode at `a` as it is freed, and to be written. -/
def markFree : InodeStore α :=
  s.alter a fun ni =>
    { ni with record := ops.mark false (nextSeqNo (ops.seqNo ni.record)) ni.record, dirty := true }

/-- `sync_rollback`: the inode is in use again, with its old sequence number. -/
def undoFree (old : UInt16) : InodeStore α :=
  s.alter a fun ni => { ni with record := ops.mark true old ni.record, dirty := true }

/-- The end of `ntfs_mft_record_free`, once the record is written: clear its bit and throw the
inode away. -/
def discard (old : UInt16) : InodeStore α × Bool :=
  match s.access with
  | (s, false) => (s.access.1.undoFree ops a old, false)
  | (s, true) =>
    let closed := s.realClose sync a
    if closed.2 then closed else (closed.1.access.1.undoFree ops a old, false)

/-- `ntfs_mft_record_free` of the inode at `a`. -/
def mftRecordFree : InodeStore α × Bool :=
  match s.inodes a with
  | none => (s, false)
  | some ni =>
    let synced := sync (s.markFree ops a) a
    if synced.2 then synced.1.discard ops sync a (ops.seqNo ni.record)
    else (synced.1.undoFree ops a (ops.seqNo ni.record), false)

end

end Free

end InodeStore

/-! ## Histories -/

/-- The calls of a history. A modification leaves the sequence number alone. -/
inductive RefCall (α : Type*) where
  | create (n : Nat)
  | inodeOpen (ref : MftRef)
  | modify (a : Nat) (record : α) (list names : Bool)
  | inodeSync (a : Nat)
  | inodeClose (a : Nat)
  | invalidate (n : Nat)
  | free (a : Nat)

/-- The store and the addresses of the inodes that are in the hands of callers. -/
structure RefSession (α : Type*) where
  store : InodeStore α
  held : List Nat

/-- A volume that has just been mounted, with the results of the accesses to come. -/
def RefSession.mounted (disk : Nat → α) (cacheReady : Bool) (io : List Bool) : RefSession α where
  store := { InodeStore.mounted disk cacheReady with io := io }
  held := []

def RefSession.give (x : RefSession α) (out : InodeStore α × Option Nat) : RefSession α :=
  ⟨out.1, out.2.toList ++ x.held⟩

def InodeCopy.changeTo (ops : NumberedRecords α ν) (record : α) (list names : Bool)
    (ni : InodeCopy α) : InodeCopy α :=
  if ops.seqNo record = ops.seqNo ni.record then
    ⟨ni.mftNo, record, true, ni.attrListDirty || list, ni.fileNameDirty || names⟩
  else ni

section

variable (ops : NumberedRecords α ν) (depth : Nat)

/-- One call, with calls that close directories nested up to `depth`. Only inodes in the hands
of a caller are modified, synchronised, closed and freed. -/
def RefSession.step (x : RefSession α) : RefCall α → RefSession α
  | .create n => x.give (x.store.mftRecordAlloc ops n)
  | .inodeOpen ref => x.give (x.store.inodeOpen ops.toRecordOps ref)
  | .modify a record list names =>
    if a ∈ x.held then ⟨x.store.alter a (InodeCopy.changeTo ops record list names), x.held⟩
    else x
  | .inodeSync a =>
    if a ∈ x.held then ⟨(x.store.inodeSync ops.toRecordOps depth a).1, x.held⟩ else x
  | .inodeClose a =>
    if a ∈ x.held then
      ⟨(x.store.inodeClose ops.toRecordOps (inodeSync ops.toRecordOps depth) a).1,
        x.held.erase a⟩
    else x
  | .invalidate n =>
    ⟨x.store.invalidate (inodeSync ops.toRecordOps depth) n, x.held⟩
  | .free a =>
    if a ∈ x.held then
      let out := x.store.mftRecordFree ops (inodeSync ops.toRecordOps depth) a
      ⟨out.1, if out.2 then x.held.erase a else x.held⟩
    else x

def RefSession.run (x : RefSession α) (calls : List (RefCall α)) : RefSession α :=
  calls.foldl (RefSession.step ops depth) x

/-- The number of record `n` that a call frees: 1 or 0. -/
def RefSession.frees (x : RefSession α) (n : Nat) : RefCall α → Nat
  | .free a => if a ∈ x.held ∧ (x.store.inodes a).any (fun ni => ni.mftNo = n) then 1 else 0
  | _ => 0

/-- How often record `n` is freed in a history. -/
def RefSession.freed (n : Nat) : RefSession α → List (RefCall α) → Nat
  | _, [] => 0
  | x, call :: calls => x.frees n call + (x.step ops depth call).freed n calls

end

end NtfsDxe
