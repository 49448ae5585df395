import NtfsDxe.Core.Machine
import Mathlib.Data.List.Perm.Basic

/-! # The table of extent inodes

A base inode keeps pointers to its extent inodes in an array whose size is not stored. The
array gets four more slots when the number of pointers is a multiple of four, and is cut when
that number has become one again.
-/

namespace NtfsDxe

open List

/-- The allocator as one call meets it. An array has a slot for each eight bytes, with anything
in it, and does not take half of the address space. -/
structure ExtentHeap where
  inode : List Nat → Option Nat
  array : Nat → Option (List Nat)
  shrinks : Bool
  inode_fresh : inode live = some ni → ni ∉ live
  array_length : array size = some nis → nis.length = size / 8
  array_lt : array size = some nis → size < 2 ^ 63

/-- The extent inodes of a base inode in memory, by address and with their mft numbers, and the
fields `nr_extents` and `extent_nis` of the base inode. No slots stand for `NULL`. -/
structure ExtentTable where
  inodes : List (Nat × Nat)
  nrExtents : Nat
  extentNis : List Nat

namespace ExtentTable

variable (t : ExtentTable) (heap : ExtentHeap)

def addresses : List Nat := t.inodes.map Prod.fst

/-- A loop over the slots from `i` on, up to the first pointer that is `found`. -/
def search (found : Nat → Except Failure Bool) : Nat → Nat → Except Failure (Option Nat)
  | 0, _ => .ok none
  | left + 1, i =>
    match t.extentNis[i]? with
    | none => .error .outOfBounds
    | some ni =>
      match found ni with
      | .error e => .error e
      | .ok true => .ok (some i)
      | .ok false => search found left (i + 1)

/-- `extent_nis[nr_extents++] = ni`, with the array `nis`. -/
def put (ni mftNo : Nat) (nis : List Nat) : Except Failure (Option Nat × ExtentTable) :=
  if t.nrExtents < nis.length then
    .ok (some ni, { inodes := (ni, mftNo) :: t.inodes, nrExtents := t.nrExtents + 1
                    extentNis := nis.set t.nrExtents ni })
  else .error .outOfBounds

/-- Attaching an extent inode to the base inode. The size `i` of a new array is an `int`. -/
def attach (ni mftNo : Nat) : Except Failure (Option Nat × ExtentTable) :=
  if t.nrExtents % 4 = 0 then
    let i := s32 ((t.nrExtents + 4) * 8)
    match heap.array (i % 2 ^ 64).toNat with
    | none => .ok (none, t)
    | some nis =>
      let n := if t.nrExtents = 0 then 0 else ((i - 32) % 2 ^ 64).toNat / 8
      if t.extentNis.length < n ∨ nis.length < n then .error .outOfBounds
      else t.put ni mftNo (t.extentNis.take n ++ nis.drop n)
  else t.put ni mftNo t.extentNis

/-- A new extent inode, if there is memory for it and its record has been read. -/
def newExtent (loaded : Bool) (mftNo : Nat) : Except Failure (Option Nat × ExtentTable) :=
  match heap.inode t.addresses with
  | none => .ok (none, t)
  | some ni => if loaded then t.attach heap ni mftNo else .ok (none, t)

def hasMftNo (mftNo ni : Nat) : Except Failure Bool :=
  match t.inodes.lookup ni with
  | none => .error .outOfBounds
  | some no => .ok (no == mftNo)

/-- `ntfs_extent_inode_open`. The record of an extent of the mft may not be mapped. -/
def extentInodeOpen (mapped loaded : Bool) (mftNo : Nat) :
    Except Failure (Option Nat × ExtentTable) :=
  if mapped then
    match t.search (t.hasMftNo mftNo) t.nrExtents 0 with
    | .error e => .error e
    | .ok (some i) => .ok (t.extentNis[i]?, t)
    | .ok none => t.newExtent heap loaded mftNo
  else .ok (none, t)

/-- `ntfs_inode_real_close` of an extent inode that has been `synced`, if it was dirty. -/
def inodeRealClose (synced : Bool) (ni : Nat) : Except Failure ExtentTable :=
  let inodes := t.inodes.eraseP (ni == ·.1)
  if synced then
    match t.search (fun x => .ok (x == ni)) t.nrExtents 0 with
    | .error e => .error e
    | .ok none => .ok { t with inodes }
    | .ok (some i) =>
      let n := t.nrExtents - 1
      let nis := t.extentNis.take i ++ (t.extentNis.drop (i + 1)).take (n - i) ++ t.extentNis.drop n
      if t.extentNis.length < t.nrExtents then .error .outOfBounds
      else .ok { inodes, nrExtents := n
                 extentNis := if n % 4 ≠ 0 then nis
                   else if n = 0 then [] else if heap.shrinks then nis.take n else nis }
  else .ok t

end ExtentTable

inductive ExtentCall where
  | extentInodeOpen (heap : ExtentHeap) (mapped loaded : Bool) (mftNo : Nat)
  | mftRecordAlloc (heap : ExtentHeap) (bit : Option Nat)
  | mftRecordFree (heap : ExtentHeap) (cleared synced : Bool) (ni : Nat)
  | inodeRealClose (heap : ExtentHeap) (synced : Bool) (ni : Nat)

/-- What a call leaves. `ntfs_mft_record_alloc` has found the free record `bit`, and
`ntfs_mft_record_free` closes the inode once its bit is `cleared`. An inode that is not in memory
is neither freed nor closed. -/
def ExtentCall.run (t : ExtentTable) : ExtentCall → Except Failure ExtentTable
  | .extentInodeOpen heap mapped loaded mftNo =>
    (t.extentInodeOpen heap mapped loaded mftNo).map Prod.snd
  | .mftRecordAlloc heap bit => bit.elim (.ok t) fun mftNo =>
    (t.newExtent heap true mftNo).map Prod.snd
  | .mftRecordFree heap cleared synced ni =>
    if ni ∈ t.addresses then t.inodeRealClose heap (cleared && synced) ni else .ok t
  | .inodeRealClose heap synced ni =>
    if ni ∈ t.addresses then t.inodeRealClose heap synced ni else .ok t

namespace ExtentTable

/-- The pointers that the table holds. -/
def slots (t : ExtentTable) : List Nat := t.extentNis.take t.nrExtents

/-- There is room up to the next multiple of four, and the pointers are those of the extent
inodes in memory. -/
structure Exact (t : ExtentTable) : Prop where
  room : (t.nrExtents + 3) / 4 * 4 ≤ t.extentNis.length
  small : (t.nrExtents + 3) / 4 * 4 < 2 ^ 28
  nodup : t.slots.Nodup
  perm : t.slots.Perm t.addresses

variable {t : ExtentTable}

lemma search_eq (p : Nat → Bool) (hroom : i + left ≤ t.extentNis.length)
    (hfound : ∀ x ∈ (t.extentNis.drop i).take left, found x = .ok (p x)) :
    t.search found left i =
      .ok ((((t.extentNis.drop i).take left).findIdx? p).map (· + i)) := by
  induction left generalizing i with
  | zero => simp [search]
  | succ left ih =>
    have hlt : i < t.extentNis.length := by omega
    rw [drop_eq_getElem_cons hlt, take_succ_cons] at hfound ⊢
    rw [search, getElem?_eq_getElem hlt]
    dsimp only
    rw [hfound _ mem_cons_self, findIdx?_cons]
    cases p t.extentNis[i] with
    | true => simp
    | false =>
      rw [ih (by omega) fun x hx => hfound x (mem_cons_of_mem _ hx)]
      simp [Function.comp_def, add_assoc, add_comm 1]

/-- The slots after `memmove` are the old ones without number `i`. -/
lemma take_moved (hi : i < n) (hn : n ≤ nis.length) :
    (take i nis ++ (drop (i + 1) nis).take (n - 1 - i) ++ drop (n - 1) nis).take (n - 1) =
      (nis.take n).eraseIdx i := by
  have hrest : n - (i + 1) = n - 1 - i := by omega
  rw [eraseIdx_eq_take_drop_succ, take_take, drop_take, min_eq_left hi.le, hrest]
  exact take_left' (by simp; omega)

variable (h : t.Exact)
include h

lemma Exact.le_length : t.nrExtents ≤ t.extentNis.length := by
  have hroom := h.room
  omega

/-- Both loops go over the slots in use. -/
lemma Exact.search (p : Nat → Bool) (hfound : ∀ x ∈ t.slots, found x = .ok (p x)) :
    t.search found t.nrExtents 0 = .ok (t.slots.findIdx? p) := by
  have hsearch := search_eq (i := 0) p (by rw [zero_add]; exact h.le_length) hfound
  simpa [slots] using hsearch

lemma Exact.hasMftNo (hx : x ∈ t.slots) :
    t.hasMftNo mftNo x = .ok (t.inodes.lookup x == some mftNo) := by
  rw [ExtentTable.hasMftNo]
  cases hlookup : t.inodes.lookup x with
  | none =>
    obtain ⟨y, hy, rfl⟩ := mem_map.mp (h.perm.mem_iff.mp hx)
    exact absurd (lookup_eq_none_iff.mp hlookup y hy) (by simp)
  | some no => rfl

/-- Storing a pointer in an array with the old slots. -/
lemma Exact.put (hni : ni ∉ t.addresses)
    (hroom : (t.nrExtents + 4) / 4 * 4 ≤ nis.length) (hsmall : (t.nrExtents + 4) / 4 * 4 < 2 ^ 28)
    (hslots : nis.take t.nrExtents = t.slots) : ∃ r, t.put ni mftNo nis = .ok r ∧ r.2.Exact := by
  have hlt : t.nrExtents < nis.length := by omega
  have hnew : (nis.set t.nrExtents ni).take (t.nrExtents + 1) = t.slots ++ [ni] := by
    rw [take_add_one, take_set_of_le (le_refl _), getElem?_set_self hlt, hslots]
    rfl
  have hperm : (t.slots ++ [ni]).Perm (ni :: t.addresses) :=
    (perm_append_singleton ni t.slots).trans (h.perm.cons ni)
  refine ⟨_, if_pos hlt, by rw [length_set]; exact hroom, hsmall, ?_, ?_⟩
  · rw [slots, hnew, hperm.nodup_iff]
    exact nodup_cons.mpr ⟨hni, h.perm.nodup_iff.mp h.nodup⟩
  · rw [slots, hnew]
    exact hperm

lemma Exact.attach (hni : ni ∉ t.addresses) : ∃ r, t.attach heap ni mftNo = .ok r ∧ r.2.Exact := by
  have hroom := h.room
  have hsmall := h.small
  rw [ExtentTable.attach]
  by_cases hfull : t.nrExtents % 4 = 0
  · rw [if_pos hfull]
    dsimp only
    cases harray : heap.array (s32 ((t.nrExtents + 4) * 8) % 2 ^ 64).toNat with
    | none => exact ⟨_, rfl, h⟩
    | some nis =>
      have hlt := heap.array_lt harray
      have hlength := heap.array_length harray
      -- a size past the largest `int` is negative, and then more than half of the addresses
      have hfits : (t.nrExtents + 4) * 8 ≤ 2147483647 := by
        by_contra hgt
        rw [s32_of_overflow (by unfold intMax; omega) (by unfold intMax; omega)] at hlt
        omega
      have hsize : s32 ((t.nrExtents + 4) * 8) = (t.nrExtents + 4) * 8 :=
        s32_of_isS32 (isS32_iff.mpr (by omega))
      rw [hsize] at hlength
      have hcopied : (if t.nrExtents = 0 then 0 else
          (((t.nrExtents + 4 : Int) * 8 - 32) % 2 ^ 64).toNat / 8) = t.nrExtents := by
        split_ifs <;> omega
      dsimp only
      rw [hsize, hcopied, if_neg (by omega)]
      refine h.put hni ?_ (by omega) (take_left' (by rw [length_take]; omega))
      rw [length_append, length_take, length_drop]
      omega
  · rw [if_neg hfull]
    exact h.put hni (by omega) (by omega) rfl

lemma Exact.newExtent : ∃ r, t.newExtent heap loaded mftNo = .ok r ∧ r.2.Exact := by
  rw [ExtentTable.newExtent]
  cases hinode : heap.inode t.addresses with
  | none => exact ⟨_, rfl, h⟩
  | some ni =>
    cases loaded with
    | false => exact ⟨_, rfl, h⟩
    | true => exact h.attach (heap.inode_fresh hinode)

lemma Exact.extentInodeOpen :
    ∃ r, t.extentInodeOpen heap mapped loaded mftNo = .ok r ∧ r.2.Exact := by
  rw [ExtentTable.extentInodeOpen, h.search _ fun x hx => h.hasMftNo hx]
  cases mapped with
  | false => exact ⟨_, rfl, h⟩
  | true =>
    cases t.slots.findIdx? _ with
    | none => exact h.newExtent
    | some i => exact ⟨_, rfl, h⟩

lemma Exact.erase (hi : i < t.slots.length) (hroom : (t.nrExtents - 1 + 3) / 4 * 4 ≤ nis.length)
    (hslots : nis.take (t.nrExtents - 1) = t.slots.eraseIdx i) :
    Exact { inodes := t.inodes.eraseP (t.slots[i] == ·.1), nrExtents := t.nrExtents - 1
            extentNis := nis } := by
  have hsmall := h.small
  refine ⟨hroom, by dsimp only; omega, ?_, ?_⟩
  · rw [slots, hslots]
    exact h.nodup.eraseIdx i
  · have haddresses := @eraseP_map _ _ (t.slots[i] == ·) Prod.fst t.inodes
    rw [← erase_eq_eraseP] at haddresses
    have hperm := (getElem_cons_eraseIdx_perm hi).trans
      (h.perm.trans (perm_cons_erase (h.perm.mem_iff.mp (getElem_mem hi))))
    rw [slots, hslots, addresses]
    exact haddresses ▸ hperm.cons_inv

lemma Exact.inodeRealClose (ni : Nat) :
    ∃ t', (if ni ∈ t.addresses then t.inodeRealClose heap synced ni else .ok t) = .ok t' ∧
      t'.Exact := by
  by_cases hni : ni ∉ t.addresses
  · exact ⟨t, if_neg hni, h⟩
  rw [if_pos (not_not.mp hni), ExtentTable.inodeRealClose, h.search (· == ni) fun x _ => rfl]
  cases synced with
  | false => exact ⟨t, rfl, h⟩
  | true =>
    cases hfind : t.slots.findIdx? (· == ni) with
    | none =>
      have hmem := h.perm.mem_iff.mpr (not_not.mp hni)
      exact absurd (findIdx?_eq_none_iff.mp hfind ni hmem) (by simp)
    | some i =>
      obtain ⟨hi, hslot, -⟩ := findIdx?_eq_some_iff_getElem.mp hfind
      have hlt : i < t.nrExtents := by
        rw [slots, length_take] at hi
        omega
      have hroom := h.room
      have hmoved := take_moved hlt h.le_length
      obtain rfl := eq_of_beq hslot
      refine ⟨_, if_neg (not_lt.mpr h.le_length), h.erase hi ?_ ?_⟩
      · split_ifs <;> simp <;> omega
      · rw [slots, ← hmoved]
        split_ifs with _ hzero
        · rfl
        · rw [hzero]
          rfl
        · rw [take_take, min_self]
        · rfl

end ExtentTable

lemma ExtentCall.run_exact (h : t.Exact) (c : ExtentCall) : ∃ t', c.run t = .ok t' ∧ t'.Exact := by
  cases c with
  | extentInodeOpen heap mapped loaded mftNo =>
    obtain ⟨r, hr, hexact⟩ := h.extentInodeOpen
    exact ⟨r.2, congrArg (Except.map Prod.snd) hr, hexact⟩
  | mftRecordAlloc heap bit =>
    cases bit with
    | none => exact ⟨t, rfl, h⟩
    | some mftNo =>
      obtain ⟨r, hr, hexact⟩ := h.newExtent
      exact ⟨r.2, congrArg (Except.map Prod.snd) hr, hexact⟩
  | mftRecordFree heap cleared synced ni => exact h.inodeRealClose ni
  | inodeRealClose heap synced ni => exact h.inodeRealClose ni

/-- No sequence of calls goes outside of the table or loses its exactness. -/
lemma ExtentTable.Exact.foldlM (h : Exact t) (calls : List ExtentCall) :
    ∃ t', calls.foldlM ExtentCall.run t = .ok t' ∧ t'.Exact := by
  induction calls generalizing t with
  | nil => exact ⟨t, rfl, h⟩
  | cons c calls ih =>
    obtain ⟨t₁, hrun, hexact⟩ := c.run_exact h
    rw [foldlM_cons, hrun]
    exact ih hexact

/-- However extent inodes are opened, allocated, freed and closed, the table of the base inode
has room for its pointers, and they are those of the extent inodes in memory, each once. -/
theorem extentTable_exact (calls : List ExtentCall) :
    ∃ t, calls.foldlM ExtentCall.run { inodes := [], nrExtents := 0, extentNis := [] } = .ok t ∧
      t.nrExtents ≤ t.extentNis.length ∧ t.slots.Nodup ∧ ∀ ni, ni ∈ t.slots ↔ ni ∈ t.addresses := by
  have hempty : ExtentTable.Exact { inodes := [], nrExtents := 0, extentNis := [] } :=
    ⟨le_refl 0, by decide, nodup_nil, .nil⟩
  obtain ⟨t, hrun, hexact⟩ := hempty.foldlM calls
  exact ⟨t, hrun, hexact.le_length, hexact.nodup, fun ni => hexact.perm.mem_iff⟩

end NtfsDxe
