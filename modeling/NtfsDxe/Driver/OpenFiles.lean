import NtfsDxe.Driver.Frame

/-! # What the entry points do to the list of open files

`ntfs_open_r` puts a file in front of the list when it succeeds, `ntfs_close_r`
takes it out by its links in any case. Nothing else touches the list.
-/

namespace NtfsDxe

open Foundation.IntrusiveList Function Links IFile

namespace Driver

/-! ## The links after each operation -/

variable (d : Driver) (f : Nat)

lemma links_modifyFile (change : NtfsFileState → NtfsFileState) :
    (d.modifyFile f change).links =
      { d.links with
        next := update d.links.next f (change (d.files f)).nextOpenFile
        prev := update d.links.prev f (change (d.files f)).prevOpenFile } := by
  simp only [links, modifyFile, Links.mk.injEq, true_and]
  constructor
  · funext g
    by_cases hg : g = f
    · subst hg
      simp only [update_self]
    · simp only [update_of_ne hg]
  · funext g
    by_cases hg : g = f
    · subst hg
      simp only [update_self]
    · simp only [update_of_ne hg]

lemma links_keep (hnext : (change (d.files f)).nextOpenFile = (d.files f).nextOpenFile)
    (hprev : (change (d.files f)).prevOpenFile = (d.files f).prevOpenFile) :
    (d.modifyFile f change).links = d.links := by
  rw [links_modifyFile, hnext, hprev]
  have hnext' : update d.links.next f (d.files f).nextOpenFile = d.links.next :=
    update_eq_self f d.links.next
  have hprev' : update d.links.prev f (d.files f).prevOpenFile = d.links.prev :=
    update_eq_self f d.links.prev
  rw [hnext', hprev']

lemma links_setNext (g : Option Nat) :
    (d.modifyFile f fun s => { s with nextOpenFile := g }).links =
      { d.links with next := update d.links.next f g } := by
  have hprev : update d.links.prev f (d.files f).prevOpenFile = d.links.prev :=
    update_eq_self f d.links.prev
  rw [links_modifyFile, hprev]

lemma links_setPrev (g : Option Nat) :
    (d.modifyFile f fun s => { s with prevOpenFile := g }).links =
      { d.links with prev := update d.links.prev f g } := by
  have hnext : update d.links.next f (d.files f).nextOpenFile = d.links.next :=
    update_eq_self f d.links.next
  rw [links_modifyFile, hnext]

lemma links_setFirst (f : Option Nat) (count : UInt16) :
    { d with firstOpenFile := f, openFileCount := count }.links = { d.links with first := f } := rfl

lemma links_setCount (count : UInt16) : { d with openFileCount := count }.links = d.links := rfl

lemma links_insertOpenFile : (d.insertOpenFile f).links = d.links.pushFront f := by
  have hlinks : d.links.first = d.firstOpenFile := rfl
  cases hfirst : d.firstOpenFile with
  | none =>
    simp only [insertOpenFile, hfirst, links_setFirst, links_setPrev, links_setNext,
      pushFront, hlinks]
  | some g =>
    simp only [insertOpenFile, hfirst, links_setFirst, links_setPrev, links_setNext,
      pushFront, hlinks]

lemma links_removeOpenFile : (d.removeOpenFile f).links = d.links.unlink f := by
  have hn : d.links.next f = (d.files f).nextOpenFile := rfl
  have hp : d.links.prev f = (d.files f).prevOpenFile := rfl
  cases hnext : (d.files f).nextOpenFile with
  | none =>
    cases hprev : (d.files f).prevOpenFile with
    | none => simp only [removeOpenFile, hnext, hprev, links_setFirst, unlink, hn, hp]
    | some g =>
      simp only [removeOpenFile, hnext, hprev, links_setNext, links_setCount,
        unlink, hn, hp]
  | some g =>
    cases hprev : (d.files f).prevOpenFile with
    | none =>
      simp only [removeOpenFile, hnext, hprev, links_setFirst, links_setPrev,
        unlink, hn, hp]
    | some g' =>
      simp only [removeOpenFile, hnext, hprev, links_setNext, links_setPrev,
        links_setCount, unlink, hn, hp]

end Driver

/-- The list of open files and its counter are the same. -/
structure ListKept (d d' : Driver) : Prop where
  links : d'.links = d.links
  count : d'.openFileCount = d.openFileCount
  next_le : d.next ≤ d'.next

lemma Walked.listKept (h : Walked d d') : ListKept d d' :=
  ⟨h.links, h.openFileCount, h.next_le⟩

namespace ListKept

lemma refl (d : Driver) : ListKept d d := ⟨rfl, rfl, le_rfl⟩

section

variable (h : ListKept d d')
include h

lemma trans (h' : ListKept d' d'') : ListKept d d'' :=
  ⟨h'.links.trans h.links, h'.count.trans h.count, h.next_le.trans h'.next_le⟩

lemma modifyFile (f : Nat) (hnext : (change (d'.files f)).nextOpenFile = (d'.files f).nextOpenFile)
    (hprev : (change (d'.files f)).prevOpenFile = (d'.files f).prevOpenFile) :
    ListKept d (d'.modifyFile f change) :=
  ⟨(d'.links_keep f hnext hprev).trans h.links, h.count, h.next_le⟩

lemma modifyDir : ListKept d (d'.modifyDir s change) :=
  { h with }

lemma setHandle (a : Nat) (file : Option IFile) : ListKept d (d'.setHandle a file) :=
  { h with }

lemma preadLoop (f len : Nat) : ListKept d (d'.preadLoop f len rets).1 := by
  induction rets generalizing d' len with
  | nil => cases len <;> exact h
  | cons ret rets ih =>
    cases len with
    | zero => exact h
    | succ len =>
      rw [Driver.preadLoop]
      split
      · exact h
      · exact ih (h.modifyFile f rfl rfl) _

lemma readR (f len : Nat) (rets : List Nat) : ListKept d (d'.readR f len rets).1 := by
  rw [Driver.readR]
  split
  · split
    · exact h
    · split
      · exact h
      · exact h.preadLoop ..
  · exact h

lemma closeDir (s : Nat) : ListKept d (d'.closeDir s) :=
  h.modifyDir ..

lemma diropenR (s r : Nat) (listing : Listing) : ListKept d (d'.diropenR s r listing) := by
  have hread : ListKept d (d'.openAndClose listing.opened) :=
    h.trans ((Walked.refl _).openAndClose listing.opened).listKept
  rw [Driver.diropenR]
  cases listing.entries with
  | none => exact hread.closeDir s
  | some entries =>
    dsimp only
    split
    · exact { hread with }
    · exact { hread with }

end

end ListKept

namespace Driver

/-! ## Opening and closing a file -/

variable (d : Driver) (f : Nat)

lemma insertOpenFile_frame : (d.insertOpenFile f).handles = d.handles ∧
    (d.insertOpenFile f).next = d.next ∧
    (d.insertOpenFile f).openFileCount = d.openFileCount + 1 := by
  rw [insertOpenFile]
  cases d.firstOpenFile <;> exact ⟨rfl, rfl, rfl⟩

lemma removeOpenFile_frame : (d.removeOpenFile f).handles = d.handles ∧
    (d.removeOpenFile f).next = d.next ∧
    (d.removeOpenFile f).openFileCount = d.openFileCount - 1 := by
  rw [removeOpenFile]
  cases (d.files f).nextOpenFile <;> cases (d.files f).prevOpenFile <;> exact ⟨rfl, rfl, rfl⟩

end Driver

/-- What `ntfs_open_r` does to the list: the file is put in front of it on success only. -/
structure OpenEffect (d : Driver) (f : Nat) (d' : Driver) (ok : Bool) : Prop where
  handles : d'.handles = d.handles
  next_le : d.next ≤ d'.next
  links : d'.links = if ok then d.links.pushFront f else d.links
  count : d'.openFileCount = if ok then d.openFileCount + 1 else d.openFileCount

lemma OpenEffect.of_kept (h : OpenEffect d₀ f d' ok)
    (hkept : ListKept d d₀) (hhandles : d₀.handles = d.handles) : OpenEffect d f d' ok where
  handles := h.handles.trans hhandles
  next_le := hkept.next_le.trans h.next_le
  links := by rw [h.links, hkept.links]
  count := by rw [h.count, hkept.count]

lemma ListKept.openFailed (h : ListKept d d') (hhandles : d'.handles = d.handles) :
    OpenEffect d f d' false :=
  ⟨hhandles, h.next_le, h.links, h.count⟩

lemma ListKept.openSucceeded (h : ListKept d d') (hhandles : d'.handles = d.handles) :
    OpenEffect d f (d'.insertOpenFile f) true where
  handles := (d'.insertOpenFile_frame f).1.trans hhandles
  next_le := h.next_le.trans (d'.insertOpenFile_frame f).2.1.ge
  links := by rw [d'.links_insertOpenFile, h.links, if_pos rfl]
  count := by rw [(d'.insertOpenFile_frame f).2.2, h.count, if_pos rfl]

namespace Driver

variable (d : Driver) (f : Nat)

lemma openData_effect : OpenEffect d f (d.openData f r data).1 (d.openData f r data).2 := by
  have hkind : ListKept d (d.modifyFile f fun s => s.setKind (d.inodes r) data) :=
    (ListKept.refl d).modifyFile f rfl rfl
  rw [openData]
  split
  · -- an encrypted file is closed again
    exact hkind.openFailed rfl
  · split
    · -- so is a read-only file that was to be written
      exact hkind.openFailed rfl
    · have hlength : ListKept d ((d.modifyFile f fun s => s.setKind (d.inodes r) data).modifyFile f
          fun s => { s with pos := 0, len := data.dataSize }) :=
        hkind.modifyFile f rfl rfl
      exact hlength.openSucceeded rfl

lemma openR_effect (r flags : Nat) (data : Option DataAttr) :
    OpenEffect d f (d.openR f r flags data).1 (d.openR f r flags data).2 := by
  have hmode : ListKept d (d.modifyFile f fun s => s.setMode flags) :=
    (ListKept.refl d).modifyFile f rfl rfl
  cases data with
  | none =>
    have hnone : ListKept d ((d.modifyFile f fun s => s.setMode flags).modifyFile f
        fun s => { s with dataNa := none }) := hmode.modifyFile f rfl rfl
    exact hnone.openFailed rfl
  | some data =>
    have hattr : ListKept d ((d.modifyFile f fun s => s.setMode flags).attrOpen.1) :=
      hmode.trans (Walked.refl _).attrOpen.listKept
    apply (openData_effect ..).of_kept
    · exact hattr.modifyFile f rfl rfl
    · rfl

lemma closeFileState_kept : ListKept d (d.closeFileState f) :=
  (ListKept.refl d).modifyFile f rfl rfl

/-- `ntfs_close_r` takes the file out of the list by whatever its links are. -/
lemma closeR_links : (d.closeR f).links = d.links.unlink f := by
  rw [closeR, links_removeOpenFile, (d.closeFileState_kept f).links]

lemma closeR_count : (d.closeR f).openFileCount = d.openFileCount - 1 := by
  rw [closeR, (removeOpenFile_frame _ f).2.2, (d.closeFileState_kept f).count]

lemma closeR_handles : (d.closeR f).handles = d.handles := by
  rw [closeR, (removeOpenFile_frame _ f).1]
  rfl

lemma closeR_next_le : d.next ≤ (d.closeR f).next := by
  rw [closeR, (removeOpenFile_frame _ f).2.1]
  exact (d.closeFileState_kept f).next_le

end Driver

/-! ## Handles -/

def IFile.fileState (file : IFile) : Option Nat :=
  match file.type with
  | .file => file.state
  | .dir => none

def Driver.fileOf (d : Driver) (h : Nat) : Option Nat := (d.handles h).bind fileState

namespace Driver

variable {d : Driver} {h a dirNi r : Nat}

lemma fileOf_congr {d' : Driver} (h : d'.handles = d.handles) (a : Nat) :
    d'.fileOf a = d.fileOf a := by
  rw [fileOf, fileOf, h]

lemma fileOf_setHandle_self (h : Nat) : (d.setHandle h file).fileOf h = file.bind fileState := by
  simp only [fileOf, setHandle, update_self]

lemma fileOf_setHandle_of_ne (hne : a ≠ h) : (d.setHandle h file).fileOf a = d.fileOf a := by
  simp only [fileOf, setHandle, update_of_ne hne]

lemma fileOf_of_setHandle (hfile : file.bind fileState = none)
    (ha : (d.setHandle h file).fileOf a = some f) : a ≠ h ∧ d.fileOf a = some f := by
  by_cases hne : a = h
  · subst hne
    rw [fileOf_setHandle_self, hfile] at ha
    cases ha
  · rw [fileOf_setHandle_of_ne hne] at ha
    exact ⟨hne, ha⟩

section

variable (d : Driver) (dirNi r : Nat)

lemma next_addHandle : (d.addHandle dirNi r).next = d.next + 2 := by
  rw [addHandle]
  split <;> rfl

lemma handles_addHandle :
    (d.addHandle dirNi r).handles =
      update d.handles d.next (some (d.handleFor dirNi r)) := by
  rw [addHandle]
  split <;> rfl

lemma openFileCount_addHandle : (d.addHandle dirNi r).openFileCount = d.openFileCount := by
  rw [addHandle]
  split <;> rfl

lemma firstOpenFile_addHandle : (d.addHandle dirNi r).firstOpenFile = d.firstOpenFile := by
  rw [addHandle]
  split <;> rfl

end

lemma files_addHandle_dir (hdir : (d.inodes r).isDirectory = true) :
    (d.addHandle dirNi r).files = d.files := by
  rw [addHandle, if_pos hdir]
  rfl

lemma files_addHandle_file (hfile : (d.inodes r).isDirectory = false) :
    (d.addHandle dirNi r).files = update d.files (d.next + 1) { ni := some r } := by
  rw [addHandle, if_neg (by simp [hfile])]

lemma fileOf_addHandle_of_ne (hne : a ≠ d.next) : (d.addHandle dirNi r).fileOf a = d.fileOf a := by
  rw [fileOf, handles_addHandle, update_of_ne hne, fileOf]

lemma fileOf_addHandle_file (hfile : (d.inodes r).isDirectory = false) :
    (d.addHandle dirNi r).fileOf d.next = some (d.next + 1) := by
  rw [fileOf, handles_addHandle]
  simp [handleFor, hfile, fileState]

lemma fileOf_addHandle_dir (hdir : (d.inodes r).isDirectory = true) :
    (d.addHandle dirNi r).fileOf d.next = none := by
  rw [fileOf, handles_addHandle]
  simp [handleFor, hdir, fileState]

lemma links_addHandle_file (hfile : (d.inodes r).isDirectory = false) :
    (d.addHandle dirNi r).links =
      ⟨d.links.first, update d.links.next (d.next + 1) none,
        update d.links.prev (d.next + 1) none⟩ := by
  have hset := d.links_modifyFile (d.next + 1) fun _ => { ni := some r }
  rw [links, files_addHandle_file hfile, firstOpenFile_addHandle]
  exact hset

end Driver

lemma ListKept.setCwd (d : Driver) (file : IFile) : ListKept d (d.setCwd file) := by
  rw [Driver.setCwd]
  split
  · exact ⟨rfl, rfl, le_rfl⟩
  · exact .refl d

lemma Driver.handles_setCwd (d : Driver) : (d.setCwd file).handles = d.handles := by
  rw [Driver.setCwd]
  split <;> rfl

namespace Driver

lemma closeFile_eq (hfile : file.fileState = some f) (d : Driver) (a : Nat) :
    (d.closeFile a file).1 = (d.closeR f).setHandle a none := by
  have hstate : file.type = .file ∧ file.state = some f := by
    rw [fileState] at hfile
    split at hfile
    next htype => exact ⟨htype, hfile⟩
    next => cases hfile
  simp only [closeFile, hstate.1, hstate.2]

lemma closeFile_links (hfile : file.fileState = some f) (d : Driver)
    (a : Nat) : (d.closeFile a file).1.links = d.links.unlink f := by
  rw [closeFile_eq hfile]
  exact closeR_links ..

lemma closeFile_count (hfile : file.fileState = some f) (d : Driver)
    (a : Nat) : (d.closeFile a file).1.openFileCount = d.openFileCount - 1 := by
  rw [closeFile_eq hfile]
  exact closeR_count ..

end Driver

/-- Deleting touches neither the list nor the handles before the handle is ended. -/
lemma Driver.deleteFile_eq (d : Driver) (a : Nat) (file : IFile) (q : DeleteRequest) :
    ∃ d', Walked d d' ∧ (d.deleteFile a file q).1 = d'.setHandle a none := by
  rw [Driver.deleteFile]
  dsimp only
  split
  · exact ⟨_, .refl d, rfl⟩
  · have hunlink := (Walked.refl d).ntfsUnlink q.entry q.dir q.deleted
    rcases hd : d.ntfsUnlink q.entry q.dir q.deleted with ⟨d₁, _ | _⟩
    · rw [hd] at hunlink
      exact ⟨d₁, hunlink, rfl⟩
    · rw [hd] at hunlink
      exact ⟨d₁, hunlink, rfl⟩

namespace Driver

lemma handles_preadLoop (d : Driver) (f len : Nat) :
    (d.preadLoop f len rets).1.handles = d.handles := by
  induction rets generalizing d len with
  | nil => cases len <;> rfl
  | cons ret rets ih =>
    cases len with
    | zero => rfl
    | succ len =>
      rw [preadLoop]
      split
      · rfl
      · exact ih _ _

lemma handles_readR (d : Driver) (f : Nat) : (d.readR f len rets).1.handles = d.handles := by
  rw [readR]
  split
  · split
    · rfl
    · split
      · rfl
      · exact handles_preadLoop ..
  · rfl

lemma handles_diropenR (d : Driver) : (d.diropenR s r listing).handles = d.handles := by
  have hread := ((Walked.refl d).openAndClose listing.opened).handles
  rw [diropenR]
  cases listing.entries with
  | none => exact hread
  | some entries =>
    dsimp only
    split <;> exact hread

end Driver

/-- Reading a directory may change its handle, but not what it is a handle for. -/
structure ReadEffect (d : Driver) (h : Nat) (file : IFile) (d' : Driver) : Prop where
  kept : ListKept d d'
  handle : ∃ file' : IFile, file'.type = file.type ∧ file'.inode = file.inode ∧
    d'.handles = update d.handles h (some file')

namespace ReadEffect

lemma refl (hh : d.handles h = some file) : ReadEffect d h file d :=
  ⟨.refl d, file, rfl, rfl, (update_eq_self_iff.mpr hh.symm).symm⟩

section

variable (heffect : ReadEffect d h file d')
include heffect

lemma trans_kept (hkept : ListKept d' d'') (hhandles : d''.handles = d'.handles) :
    ReadEffect d h file d'' := by
  obtain ⟨file', htype, hinode, hh⟩ := heffect.handle
  exact ⟨heffect.kept.trans hkept, file', htype, hinode, hhandles.trans hh⟩

lemma setHandle (htype : file'.type = file.type) (hinode : file'.inode = file.inode) :
    ReadEffect d h file (d'.setHandle h (some file')) := by
  obtain ⟨_, -, -, hh⟩ := heffect.handle
  refine ⟨heffect.kept.setHandle h _, file', htype, hinode, ?_⟩
  rw [Driver.setHandle, hh, update_idem]

lemma diropenR (s r : Nat) (listing : Listing) : ReadEffect d h file (d'.diropenR s r listing) :=
  heffect.trans_kept ((ListKept.refl d').diropenR s r listing) d'.handles_diropenR

end

lemma listDirectory (hh : d.handles h = some file) (q : ReadRequest) :
    ReadEffect d h file (d.listDirectory h file q).1 := by
  rw [Driver.listDirectory]
  have hstart := ReadEffect.refl hh
  cases hstate : file.state with
  | some s =>
    dsimp only
    split
    · exact (hstart.trans_kept ((ListKept.refl d).modifyDir ..) rfl).diropenR ..
    · exact hstart
  | none =>
    -- the root directory gets its directory state at the first reading
    have halloc : ReadEffect d h file
        { d with
          next := d.next + 1
          dirs := update d.dirs d.next { ni := some file.inode } } :=
      hstart.trans_kept ⟨rfl, rfl, Nat.le_succ _⟩ rfl
    have hlist := (@setHandle _ _ _ _ halloc { file with state := some d.next } rfl rfl).diropenR
      d.next file.inode q.listing
    dsimp only
    split
    · exact (hlist.trans_kept ((ListKept.refl _).modifyDir ..) rfl).diropenR ..
    · exact hlist

lemma readDirectory (hh : d.handles h = some file) (q : ReadRequest) :
    ReadEffect d h file (d.readDirectory h file q).1 := by
  rw [Driver.readDirectory]
  have hlist := ReadEffect.listDirectory hh q
  split
  · exact ReadEffect.refl hh
  · rcases hd : d.listDirectory h file q with ⟨d₁, s⟩
    rw [hd] at hlist
    dsimp only
    cases (d₁.dirs s).current with
    | nil => exact hlist
    | cons entry rest =>
      dsimp only
      split
      · exact hlist
      · have hentry := (Walked.refl d₁).describeEntry q.entry q.entryData
        have hdescribed := hlist.trans_kept hentry.listKept hentry.handles
        exact (hdescribed.trans_kept ((ListKept.refl _).modifyDir ..) rfl).setHandle rfl rfl

end ReadEffect

end NtfsDxe
