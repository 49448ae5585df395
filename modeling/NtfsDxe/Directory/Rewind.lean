import NtfsDxe.Driver.EntryPoints
import NtfsDxe.File.Write

/-! # Enumerating a directory through its handle

`NtfsReadDirectory` lists the directory when it is read for the first time and
then hands out one entry a call. Where it stands is kept by the cursor of the
list, while `NtfsSetPositionFile` resets the position of the handle, which the
enumeration does not depend on. What is stored about an entry is not part of
this model, only which entry it is.
-/

namespace NtfsDxe

open List

/-! ## The code -/

/-- The fields of `ntfs_dir_state` that the enumeration uses: whether the inode is
set, the list, and the list from the current entry on. -/
structure DirCursor where
  ni : Bool
  first : List NtfsDirEntry
  current : List NtfsDirEntry
  deriving DecidableEq

/-- The fields of `NTFS_IFILE` for a directory. -/
structure DirHandle where
  position : UInt64
  dir : Option DirCursor

/-- The functions that make the handle of a directory. -/
inductive DirOrigin where
  | openVolume
  | openFile

/-- The handle of a directory that has just been opened. `NtfsOpenFile` allocates a
directory state filled with zeros, and `NtfsOpenVolume` none. -/
def DirHandle.opened : DirOrigin → DirHandle
  | .openVolume => { position := 0, dir := none }
  | .openFile => { position := 0, dir := some { ni := false, first := [], current := [] } }

/-- `ntfs_diropen_r`, where `list` are the entries of the directory, if
`ntfs_readdir` succeeds. -/
def DirCursor.diropen (dir : DirCursor) : Option (List NtfsDirEntry) → DirCursor
  | none => { ni := false, first := [], current := [] }
  | some entries => { dir with first := entries, current := entries }

/-- `ntfs_dirnext_r`, with `none` for the result `-1`. -/
def DirCursor.dirnext (dir : DirCursor) : Option DirCursor :=
  if dir.ni = false then none
  else
    match dir.current with
    | [] => none
    | _ :: rest => some { dir with current := rest }

/-- What a call of `NtfsReadDirectory` returns. -/
inductive DirRead where
  | notFound
  | endOfDir
  | tooSmall (size : Nat)
  | entry (e : NtfsDirEntry) (size : Nat)
  deriving DecidableEq

def NtfsDirEntry.requiredSize (e : NtfsDirEntry) : Nat :=
  sizeofEfiFileInfo + (e.name.length + 1) * 2

namespace DirHandle

/-- The part of `NtfsReadDirectory` that makes sure that the directory has been
listed. -/
def cursor (list : Option (List NtfsDirEntry)) (h : DirHandle) : DirCursor :=
  let dir := h.dir.getD (DirCursor.diropen { ni := true, first := [], current := [] } list)
  if dir.current = [] ∧ dir.ni = false then { dir with ni := true }.diropen list else dir

/-- The end of `NtfsReadDirectory`, with the position behind the entry. -/
def advance (h : DirHandle) (dir : DirCursor) : DirHandle :=
  match dir.dirnext with
  | none => { h with position := -1, dir := some dir }
  | some dir' => { h with position := h.position + 1, dir := some dir' }

/-- `NtfsReadDirectory`. The position is unsigned, so that the first test never
holds. -/
def read (list : Option (List NtfsDirEntry)) (h : DirHandle) (bufferSize : Nat) :
    DirHandle × DirRead :=
  if h.position < 0 then (h, .notFound)
  else
    let dir := h.cursor list
    match dir.current with
    | [] => ({ h with dir := some dir }, .endOfDir)
    | e :: _ =>
      if bufferSize < e.requiredSize then
        ({ h with dir := some dir }, .tooSmall e.requiredSize)
      else (h.advance dir, .entry e e.requiredSize)

/-- `NtfsSetPositionFile` on the handle of a directory. -/
def setPosition (h : DirHandle) (position : UInt64) : EfiStatus × DirHandle :=
  if position ≠ 0 then (.unsupported, h) else (.success, { h with position := 0 })

/-- The results of calls with buffers of the given sizes. -/
def reads (list : Option (List NtfsDirEntry)) (h : DirHandle) : List Nat → List DirRead
  | [] => []
  | size :: sizes => (h.read list size).2 :: (h.read list size).1.reads list sizes

end DirHandle

/-! ## Histories -/

/-- A call on the handle of a directory. -/
inductive DirCall where
  | read (bufferSize : Nat)
  | setPosition (position : UInt64)

def DirRead.returned : DirRead → Option NtfsDirEntry
  | .entry e _ => some e
  | _ => none

def DirHandle.run (list : Option (List NtfsDirEntry)) (h : DirHandle) :
    List DirCall → DirHandle × List NtfsDirEntry
  | [] => (h, [])
  | .read size :: calls =>
    let r := h.read list size
    let rest := r.1.run list calls
    (rest.1, r.2.returned.toList ++ rest.2)
  | .setPosition position :: calls => (h.setPosition position).2.run list calls

/-! ## What the enumeration depends on -/

/-- The cursor behind the first `k` entries. -/
def cursorAt (k : Nat) : Option (List NtfsDirEntry) → DirCursor
  | none => { ni := false, first := [], current := [] }
  | some entries => { ni := true, first := entries, current := entries.drop k }

/-- The first `k` entries of the directory have been returned. -/
structure Enumerated (list : Option (List NtfsDirEntry)) (k : Nat) (h : DirHandle) : Prop where
  le_length : k ≤ (list.getD []).length
  dir : h.dir = some (cursorAt k list) ∨
    (h.dir = none ∨ h.dir = some { ni := false, first := [], current := [] }) ∧ k = 0

lemma Enumerated.opened (list : Option (List NtfsDirEntry)) (origin : DirOrigin) :
    Enumerated list 0 (DirHandle.opened origin) := by
  refine ⟨Nat.zero_le _, .inr ⟨?_, rfl⟩⟩
  cases origin with
  | openVolume => exact .inl rfl
  | openFile => exact .inr rfl

def answers : List NtfsDirEntry → List Nat → List DirRead
  | _, [] => []
  | [], _ :: sizes => .endOfDir :: answers [] sizes
  | e :: rest, size :: sizes =>
    if size < e.requiredSize then .tooSmall e.requiredSize :: answers (e :: rest) sizes
    else .entry e e.requiredSize :: answers rest sizes

section Enumeration

lemma cursorAt_current (k : Nat) (list : Option (List NtfsDirEntry)) :
    (cursorAt k list).current = (list.getD []).drop k := by
  cases list with
  | none => exact drop_nil.symm
  | some entries => rfl

section

variable (henum : Enumerated list k h)
include henum

/-- Listing again does not change anything: the first listing is repeated only after
a failure. -/
lemma Enumerated.cursor_eq : h.cursor list = cursorAt k list := by
  unfold DirHandle.cursor
  rcases henum.dir with hdir | ⟨hdir | hdir, rfl⟩
  · rw [hdir]
    cases list with
    | none => rfl
    | some entries => exact if_neg (fun hboth => Bool.noConfusion hboth.2)
  · rw [hdir]
    cases list with
    | none => rfl
    | some entries => exact if_neg (fun hboth => Bool.noConfusion hboth.2)
  · rw [hdir]
    cases list with
    | none => rfl
    | some entries => exact if_pos ⟨rfl, rfl⟩

lemma Enumerated.keep (position : UInt64) :
    Enumerated list k { position := position, dir := some (cursorAt k list) } :=
  ⟨henum.le_length, .inl rfl⟩

/-- Setting the position does not touch the enumeration. -/
lemma Enumerated.setPosition (position : UInt64) :
    Enumerated list k (h.setPosition position).2 := by
  unfold DirHandle.setPosition
  split
  · exact henum
  · exact ⟨henum.le_length, henum.dir⟩

lemma Enumerated.read_nil (hleft : (list.getD []).drop k = []) :
    h.read list size = ({ h with dir := some (cursorAt k list) }, .endOfDir) := by
  have hcurrent := cursorAt_current k list
  rw [hleft] at hcurrent
  rw [DirHandle.read, if_neg UInt64.not_lt_zero, henum.cursor_eq]
  simp only [hcurrent]

lemma Enumerated.read_cons (hleft : (list.getD []).drop k = e :: rest) :
    h.read list size =
      if size < e.requiredSize then
        ({ h with dir := some (cursorAt k list) }, .tooSmall e.requiredSize)
      else (h.advance (cursorAt k list), .entry e e.requiredSize) := by
  have hcurrent := cursorAt_current k list
  rw [hleft] at hcurrent
  rw [DirHandle.read, if_neg UInt64.not_lt_zero, henum.cursor_eq]
  simp only [hcurrent]

/-- Behind an entry one more has been returned. -/
lemma Enumerated.advance (hleft : (list.getD []).drop k = e :: rest) :
    Enumerated list (k + 1) (h.advance (cursorAt k list)) := by
  have hlen : k < (list.getD []).length := by
    by_contra hge
    rw [drop_eq_nil_of_le (not_lt.mp hge)] at hleft
    cases hleft
  cases list with
  | none => exact absurd hlen (Nat.not_lt_zero k)
  | some entries =>
    refine ⟨hlen, .inl ?_⟩
    have hcurrent : entries.drop k = e :: rest := hleft
    have hrest : entries.drop (k + 1) = rest := by
      rw [← tail_drop, hcurrent, tail_cons]
    simp only [cursorAt, hcurrent, hrest]
    rfl

/-- What is read depends on the entries that are left alone. -/
lemma Enumerated.reads_eq (sizes : List Nat) :
    h.reads list sizes = answers ((list.getD []).drop k) sizes := by
  induction sizes generalizing k h with
  | nil => rw [DirHandle.reads, answers]
  | cons size sizes ih =>
    rw [DirHandle.reads]
    cases hleft : (list.getD []).drop k with
    | nil =>
      rw [henum.read_nil hleft, answers, ih (henum.keep h.position), hleft]
    | cons e rest =>
      rw [henum.read_cons hleft, answers]
      by_cases hsmall : size < e.requiredSize
      · rw [if_pos hsmall, if_pos hsmall, ih (henum.keep h.position), hleft]
      · have hrest : (list.getD []).drop (k + 1) = rest := by
          rw [← tail_drop, hleft, tail_cons]
        rw [if_neg hsmall, if_neg hsmall, ih (henum.advance hleft), hrest]

/-- A history returns the next entries, one after the other. -/
lemma Enumerated.run (calls : List DirCall) :
    Enumerated list (k + (h.run list calls).2.length) (h.run list calls).1 := by
  induction calls generalizing k h with
  | nil => exact henum
  | cons call calls ih =>
    cases call with
    | setPosition position => exact ih (henum.setPosition position)
    | read size =>
      rw [DirHandle.run]
      cases hleft : (list.getD []).drop k with
      | nil =>
        rw [henum.read_nil hleft]
        exact ih (henum.keep h.position)
      | cons e rest =>
        rw [henum.read_cons hleft]
        by_cases hsmall : size < e.requiredSize
        · rw [if_pos hsmall]
          exact ih (henum.keep h.position)
        · rw [if_neg hsmall]
          have hnext := ih (henum.advance hleft)
          rw [add_assoc, add_comm 1] at hnext
          exact hnext

end

end Enumeration

/-! ## Rewinding -/

/-- With buffers that are large enough the entries that are left are returned. -/
lemma answers_entries (hlarge : ∀ e ∈ left, e.requiredSize ≤ size) (hm : left.length ≤ m) :
    (answers left (List.replicate m size)).filterMap DirRead.returned = left := by
  induction m generalizing left with
  | zero =>
    rw [length_eq_zero_iff.mp (Nat.le_zero.mp hm)]
    rfl
  | succ m ih =>
    rw [replicate_succ]
    cases left with
    | nil => exact ih hlarge (Nat.zero_le m)
    | cons e rest =>
      have hsize : ¬ size < e.requiredSize := not_lt.mpr (hlarge e mem_cons_self)
      have hrest := ih (fun e he => hlarge e (mem_cons_of_mem _ he))
        (Nat.le_of_succ_le_succ hm)
      have hhead : (DirRead.entry e e.requiredSize).returned = some e := rfl
      rw [answers, if_neg hsize, filterMap_cons_some hhead, hrest]

lemma exists_large (left : List NtfsDirEntry) : ∃ size, ∀ e ∈ left, e.requiredSize ≤ size := by
  induction left with
  | nil => exact ⟨0, fun e he => absurd he not_mem_nil⟩
  | cons e rest ih =>
    obtain ⟨size, hsize⟩ := ih
    refine ⟨max e.requiredSize size, ?_⟩
    intro e' he'
    rcases mem_cons.mp he' with rfl | he'
    · exact le_max_left _ _
    · exact le_trans (hsize e' he') (le_max_right _ _)

lemma answers_injective (hsame : ∀ sizes, answers left sizes = answers left' sizes) :
    left = left' := by
  obtain ⟨size, hsize⟩ := exists_large (left ++ left')
  have hleft := answers_entries (fun e he => hsize e (mem_append_left _ he))
    (Nat.le_add_right left.length left'.length)
  have hleft' := answers_entries (fun e he => hsize e (mem_append_right _ he))
    (Nat.le_add_left left'.length left.length)
  rw [← hleft, hsame, hleft']

/-- A handle after some history: going back to position 0 starts the enumeration
anew, and a call whose buffer is too small changes nothing, so that it can be
repeated. -/
structure Rewinds (list : Option (List NtfsDirEntry)) (h : DirHandle) : Prop where
  rewind : ∀ fresh sizes, (h.setPosition 0).2.reads list sizes =
    (DirHandle.opened fresh).reads list sizes
  retry : ∀ size needed h', h.read list size = (h', .tooSmall needed) →
    (∀ sizes, h'.reads list sizes = h.reads list sizes) ∧
      ∃ e, (h'.read list needed).2 = .entry e needed

/-- A call whose buffer is too small can be repeated. -/
lemma Enumerated.retry (henum : Enumerated list k h)
    (hread : h.read list size = (h', .tooSmall needed)) :
    (∀ sizes, h'.reads list sizes = h.reads list sizes) ∧
      ∃ e, (h'.read list needed).2 = .entry e needed := by
  cases hleft : (list.getD []).drop k with
  | nil =>
    rw [henum.read_nil hleft] at hread
    cases hread
  | cons e rest =>
    rw [henum.read_cons hleft] at hread
    by_cases hsmall : size < e.requiredSize
    · rw [if_pos hsmall] at hread
      cases hread
      have hkept := henum.keep h.position
      refine ⟨fun sizes => (hkept.reads_eq sizes).trans (henum.reads_eq sizes).symm, e, ?_⟩
      rw [hkept.read_cons hleft, if_neg (lt_irrefl _)]
    · rw [if_neg hsmall] at hread
      cases hread

/-- After a history the handle of a directory can be rewound exactly when no entry
has been returned yet. -/
theorem dirHandle_rewinds_iff (list : Option (List NtfsDirEntry)) (origin : DirOrigin)
    (calls : List DirCall) :
    Rewinds list ((DirHandle.opened origin).run list calls).1 ↔
      ((DirHandle.opened origin).run list calls).2 = [] := by
  have henum := (Enumerated.opened list origin).run calls
  rw [zero_add] at henum
  constructor
  · rintro ⟨hrewind, _⟩
    have hleft : (list.getD []).drop ((DirHandle.opened origin).run list calls).2.length =
        list.getD [] := by
      apply answers_injective
      intro sizes
      rw [← (henum.setPosition 0).reads_eq, hrewind origin,
        (Enumerated.opened list origin).reads_eq, drop_zero]
    have hlength := congrArg List.length hleft
    have hle := henum.le_length
    rw [length_drop] at hlength
    apply length_eq_zero_iff.mp
    omega
  · intro hnone
    rw [hnone] at henum
    refine ⟨?_, fun size needed h' hread => henum.retry hread⟩
    intro fresh sizes
    rw [(henum.setPosition 0).reads_eq, (Enumerated.opened list fresh).reads_eq, length_nil]

/-- A directory with the entries `a` and `b`. -/
def twoEntries : List NtfsDirEntry := [⟨[97], 30⟩, ⟨[98], 31⟩]

def oneRead : DirHandle := ((DirHandle.opened .openFile).run (some twoEntries) [.read 100]).1

/-- After one entry has been read, going back to position 0 succeeds, and the next
calls return the second entry and the end of the directory. -/
theorem dirHandle_rewound_behind :
    (oneRead.setPosition 0).1 = .success ∧
      (oneRead.setPosition 0).2.reads (some twoEntries) [100, 100] =
        [.entry ⟨[98], 31⟩ 92, .endOfDir] ∧
      (DirHandle.opened .openFile).reads (some twoEntries) [100, 100] =
        [.entry ⟨[97], 30⟩ 92, .entry ⟨[98], 31⟩ 92] := by
  decide

end NtfsDxe
