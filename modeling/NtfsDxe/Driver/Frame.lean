import Mathlib.Data.Nat.Basic
import Mathlib.Order.Basic
import NtfsDxe.Driver.EntryPoints

/-! # What a path walk leaves alone

Resolving a path opens inodes. It changes neither the open files and directories
nor the handles.
-/

namespace NtfsDxe

open Foundation.IntrusiveList

/-- `d'` differs from `d` in newly allocated addresses only. -/
structure Walked (d d' : Driver) : Prop where
  next_le : d.next ≤ d'.next
  inodes : ∀ r < d.next, d'.inodes r = d.inodes r
  files : d'.files = d.files
  dirs : d'.dirs = d.dirs
  handles : d'.handles = d.handles
  root : d'.root = d.root
  cwdNi : d'.cwdNi = d.cwdNi
  firstOpenFile : d'.firstOpenFile = d.firstOpenFile
  openFileCount : d'.openFileCount = d.openFileCount

namespace Walked

lemma refl (d : Driver) : Walked d d := ⟨le_rfl, fun _ _ => rfl, rfl, rfl, rfl, rfl, rfl, rfl, rfl⟩

section

variable (h : Walked d d')
include h

lemma links : d'.links = d.links := by
  simp only [Driver.links, h.files, h.firstOpenFile]

lemma inodeOpen (ni : Option NtfsInode) : Walked d (d'.inodeOpen ni).1 := by
  cases ni with
  | none => exact h
  | some ni =>
    refine ⟨h.next_le.trans (Nat.le_succ _), ?_, h.files, h.dirs, h.handles, h.root, h.cwdNi,
      h.firstOpenFile, h.openFileCount⟩
    intro r hr
    have hne : r ≠ d'.next := ne_of_lt (hr.trans_le h.next_le)
    exact (Function.update_of_ne hne ..).trans (h.inodes r hr)

lemma attrOpen : Walked d d'.attrOpen.1 :=
  ⟨h.next_le.trans (Nat.le_succ _), h.inodes, h.files, h.dirs, h.handles, h.root, h.cwdNi,
    h.firstOpenFile, h.openFileCount⟩

lemma walkFrom (r : Nat) (components : List Component) :
    Walked d (d'.walkFrom r components).1 := by
  induction components generalizing d' r with
  | nil => exact h
  | cons component components ih =>
    cases component with
    | missing => exact h
    | found ni =>
      have hopened := h.inodeOpen ni
      rw [Driver.walkFrom]
      rcases hd : d'.inodeOpen ni with ⟨d1, _ | r'⟩
      · rw [hd] at hopened
        exact hopened
      · rw [hd] at hopened
        exact ih hopened r'

lemma pathnameToInode (parent : Option Nat) (walk : Walk) :
    Walked d (d'.pathnameToInode parent walk).1 := by
  cases parent with
  | some r => exact h.walkFrom r walk.components
  | none =>
    rw [Driver.pathnameToInode]
    cases walk.cached with
    | some ni => exact h.inodeOpen ni
    | none =>
      have hroot := h.inodeOpen walk.root
      rcases hd : d'.inodeOpen walk.root with ⟨d1, _ | r⟩
      · rw [hd] at hroot
        exact hroot
      · rw [hd] at hroot
        exact hroot.walkFrom r walk.components

lemma parseEntry (hops : List Hop) : Walked d (d'.parseEntry hops).1 := by
  induction hops generalizing d' with
  | nil => exact h
  | cons hop hops ih =>
    rw [Driver.parseEntry]
    have hwalk := h.pathnameToInode (if hop.walk.relative then d'.cwdNi else none) hop.walk
    rcases hd : d'.pathnameToInode (if hop.walk.relative then d'.cwdNi else none) hop.walk with
      ⟨d1, _ | r⟩
    · rw [hd] at hwalk
      exact hwalk
    · rw [hd] at hwalk
      dsimp only
      split
      · split
        · exact ih hwalk
        · exact hwalk
      · exact hwalk

lemma ntfsCreate (dir : List Hop) (created : Option NtfsInode) :
    Walked d (d'.ntfsCreate dir created).1 := by
  rw [Driver.ntfsCreate]
  have hdir := h.parseEntry dir
  rcases hd : d'.parseEntry dir with ⟨d1, _ | dirNi⟩
  · rw [hd] at hdir
    exact hdir
  · rw [hd] at hdir
    exact hdir.inodeOpen created

lemma ntfsUnlink (entry dir : List Hop) (deleted : Bool) :
    Walked d (d'.ntfsUnlink entry dir deleted).1 := by
  rw [Driver.ntfsUnlink]
  have hentry := h.parseEntry entry
  rcases hd : d'.parseEntry entry with ⟨d1, _ | r⟩
  · rw [hd] at hentry
    exact hentry
  · rw [hd] at hentry
    have hdir := hentry.parseEntry dir
    dsimp only
    rcases hd1 : d1.parseEntry dir with ⟨d2, _ | dirNi⟩
    · rw [hd1] at hdir
      exact hdir
    · rw [hd1] at hdir
      exact hdir

lemma openTarget (q : OpenRequest) : Walked d (d'.openTarget q).1 := by
  rw [Driver.openTarget]
  split
  · have hcreate := h.ntfsCreate q.parent q.created
    rcases hd : d'.ntfsCreate q.parent q.created with ⟨d1, _ | r⟩
    · rw [hd] at hcreate
      dsimp only
      split
      · exact hcreate
      · exact hcreate.parseEntry q.entry
    · rw [hd] at hcreate
      exact hcreate
  · split
    · exact h.inodeOpen q.root
    · exact h.parseEntry q.entry

lemma openAndClose (nis : List NtfsInode) : Walked d (d'.openAndClose nis) := by
  induction nis generalizing d' with
  | nil => exact h
  | cons ni nis ih => exact ih (h.inodeOpen (some ni))

lemma describeEntry (ni : Option NtfsInode) (data : Bool) :
    Walked d (d'.describeEntry ni data) := by
  cases ni with
  | none => exact h
  | some ni =>
    have hopened := h.inodeOpen (some ni)
    cases data with
    | false => exact hopened
    | true => exact hopened.attrOpen

end

end Walked

namespace Driver

/-- `NtfsOpenFile` rejects the request, finds no inode, or makes a handle for the inode. -/
lemma openFile_cases (d : Driver) :
    d.openFile file q = (d, { status := .invalidParameter }) ∨
    (∃ d₁, (d.setCwd file).openTarget q = (d₁, none) ∧
      d.openFile file q = (d₁, { status := .invalidParameter })) ∨
    ∃ d₁ r flags, q.flags = some flags ∧ (d.setCwd file).openTarget q = (d₁, some r) ∧
      d.openFile file q = d₁.newHandle file.inode r flags q.data := by
  rw [openFile]
  cases hflags : q.flags with
  | none => exact .inl rfl
  | some flags =>
    dsimp only
    split
    · exact .inl rfl
    · rcases htarget : (d.setCwd file).openTarget q with ⟨d₁, _ | r⟩
      · exact .inr (.inl ⟨d₁, rfl, rfl⟩)
      · exact .inr (.inr ⟨d₁, r, flags, rfl, rfl, rfl⟩)

/-- The answer to a call that its client may make. -/
inductive Answers (d : Driver) : Call → Driver × Returned → Prop
  | openVolume (root : Option NtfsInode) : Answers d (.openVolume root) (d.openVolume root)
  | openFile {h : Nat} {file : IFile} (hh : d.handles h = some file) (q : OpenRequest) :
      Answers d (.openFile h q) (d.openFile file q)
  | readFile {h : Nat} {file : IFile} (hh : d.handles h = some file) (q : ReadRequest) :
      Answers d (.readFile h q) (d.readFile h file q)
  | closeFile {h : Nat} {file : IFile} (hh : d.handles h = some file) :
      Answers d (.closeFile h) (d.closeFile h file)
  | deleteFile {h : Nat} {file : IFile} (hh : d.handles h = some file) (q : DeleteRequest) :
      Answers d (.deleteFile h q) (d.deleteFile h file q)
  | abandonVolume (uninstalled : Bool) :
      Answers d (.abandonVolume uninstalled) (d.abandonVolume uninstalled)

lemma answers_of_call {d : Driver} (h : d.call c = some result) : d.Answers c result := by
  cases c with
  | openVolume root =>
    obtain rfl := Option.some.inj h
    exact .openVolume root
  | abandonVolume uninstalled =>
    obtain rfl := Option.some.inj h
    exact .abandonVolume uninstalled
  | openFile a q =>
    obtain ⟨file, hh, rfl⟩ := Option.map_eq_some_iff.mp h
    exact .openFile hh q
  | readFile a q =>
    obtain ⟨file, hh, rfl⟩ := Option.map_eq_some_iff.mp h
    exact .readFile hh q
  | closeFile a =>
    obtain ⟨file, hh, rfl⟩ := Option.map_eq_some_iff.mp h
    exact .closeFile hh
  | deleteFile a q =>
    obtain ⟨file, hh, rfl⟩ := Option.map_eq_some_iff.mp h
    exact .deleteFile hh q

end Driver

end NtfsDxe
