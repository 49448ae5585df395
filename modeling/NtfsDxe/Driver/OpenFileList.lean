import NtfsDxe.Foundation.Sessions
import NtfsDxe.Driver.OpenFiles

/-! # The list of open files in a session

The list is exact throughout a session if and only if no handle is closed whose
`ntfs_open_r` failed, no handle is deleted whose `ntfs_open_r` succeeded, and the
counter does not overflow.
-/

namespace NtfsDxe

open Foundation.IntrusiveList Foundation.Sessions List Function Driver

/-- The driver, and the file states of the handles whose `ntfs_open_r` succeeded and that
have not been closed or deleted, the latest first. -/
structure Session where
  driver : Driver
  opened : List Nat

namespace Session

def mounted : Session := ⟨Driver.mounted, []⟩

def openedAfter (s : Session) (returned : Returned) : Call → List Nat
  | .closeFile h | .deleteFile h _ =>
    match s.driver.fileOf h with
    | some f => s.opened.erase f
    | none => s.opened
  | _ =>
    match returned.openResult with
    | some (f, true) => f :: s.opened
    | _ => s.opened

def step (s : Session) (c : Call) : Option Session :=
  (s.driver.call c).map fun (d, returned) => ⟨d, s.openedAfter returned c⟩

/-- The list that starts at `firstOpenFile` consists of the file states of the open
handles, each once, the links lead both ways, and the counter is its length. -/
def Exact (s : Session) : Prop :=
  ∃ xs : List Nat, xs.Perm s.opened ∧ s.driver.links.Lists xs ∧
    s.driver.openFileCount.toNat = xs.length

/-- A handle is closed only if its `ntfs_open_r` succeeded, and deleted only if it failed;
nothing is opened while 65535 files are open. -/
def Tracked (s : Session) : Call → Prop
  | .openFile h q =>
    ∀ d returned f, s.driver.call (.openFile h q) = some (d, returned) →
      returned.openResult = some (f, true) → s.opened.length < 65535
  | .closeFile h => ∀ f, s.driver.fileOf h = some f → f ∈ s.opened
  | .deleteFile h _ => ∀ f, s.driver.fileOf h = some f → f ∉ s.opened
  | _ => True

/-- The invariant of sessions in which every call is tracked: the list is in the order of
opening, and a file whose `ntfs_open_r` failed has no links. -/
structure InOrder (s : Session) : Prop where
  lists : s.driver.links.Lists s.opened
  count : s.driver.openFileCount.toNat = s.opened.length
  nodup : s.opened.Nodup
  opened_lt : ∀ f ∈ s.opened, f < s.driver.next
  state_lt : ∀ h f, s.driver.fileOf h = some f → f < s.driver.next
  distinct : ∀ h h' f, s.driver.fileOf h = some f → s.driver.fileOf h' = some f → h = h'
  unlinked : ∀ h f, s.driver.fileOf h = some f → f ∉ s.opened →
    s.driver.links.next f = none ∧ s.driver.links.prev f = none

lemma InOrder.exact {s : Session} (h : s.InOrder) : s.Exact :=
  ⟨s.opened, .refl _, h.lists, h.count⟩

lemma inOrder_mounted : mounted.InOrder where
  lists := rfl
  count := rfl
  nodup := nodup_nil
  opened_lt := by intro f hf; cases hf
  state_lt := by intro h f hf; cases hf
  distinct := by intro h h' f hf; cases hf
  unlinked := by intro h f hf; cases hf

/-- A call that leaves the list alone and adds no handle for a file. -/
lemma InOrder.of_listKept {s : Session} (h : s.InOrder) (hkept : ListKept s.driver d)
    (hfiles : ∀ a f, d.fileOf a = some f → s.driver.fileOf a = some f) : InOrder ⟨d, s.opened⟩ where
  lists := by
    rw [hkept.links]
    exact h.lists
  count := by
    rw [hkept.count]
    exact h.count
  nodup := h.nodup
  opened_lt := fun f hf => (h.opened_lt f hf).trans_le hkept.next_le
  state_lt := fun a f hf => (h.state_lt a f (hfiles a f hf)).trans_le hkept.next_le
  distinct := fun a a' f ha ha' => h.distinct a a' f (hfiles a f ha) (hfiles a' f ha')
  unlinked := by
    rw [hkept.links]
    exact fun a f hf => h.unlinked a f (hfiles a f hf)

variable {s : Session}

/-! ### Opening -/

/-- The state that `NtfsOpenFile` allocates for a file is not in the list. -/
lemma InOrder.addFile (h : s.InOrder) {dirNi r : Nat}
    (hfile : (s.driver.inodes r).isDirectory = false) :
    InOrder ⟨s.driver.addHandle dirNi r, s.opened⟩ := by
  have hnext := s.driver.next_addHandle dirNi r
  have hlinks := @links_addHandle_file s.driver dirNi r hfile
  have hstate : ∀ a f, (s.driver.addHandle dirNi r).fileOf a = some f →
      a = s.driver.next ∧ f = s.driver.next + 1 ∨ s.driver.fileOf a = some f := by
    intro a f ha
    by_cases hne : a = s.driver.next
    · subst hne
      exact .inl ⟨rfl, Option.some.inj (ha.symm.trans (fileOf_addHandle_file hfile))⟩
    · rw [fileOf_addHandle_of_ne hne] at ha
      exact .inr ha
  have hnot : ∀ f, f < s.driver.next → f ≠ s.driver.next + 1 := by
    omega
  refine ⟨?_, ?_, h.nodup, ?_, ?_, ?_, ?_⟩
  · rw [hlinks]
    refine h.lists.congr rfl ?_ ?_
    · intro f hf
      exact update_of_ne (hnot f (h.opened_lt f hf)) ..
    · intro f hf
      exact update_of_ne (hnot f (h.opened_lt f hf)) ..
  · rw [s.driver.openFileCount_addHandle]
    exact h.count
  · intro f hf
    have hlt := h.opened_lt f hf
    dsimp only
    omega
  · intro a f ha
    dsimp only at ha ⊢
    rcases hstate a f ha with ⟨-, rfl⟩ | hold
    · omega
    · have hlt := h.state_lt a f hold
      omega
  · intro a a' f ha ha'
    rcases hstate a f ha with ⟨rfl, hf⟩ | hold
    · rcases hstate a' f ha' with ⟨rfl, -⟩ | hold'
      · rfl
      · exact absurd hf (hnot f (h.state_lt a' f hold'))
    · rcases hstate a' f ha' with ⟨-, hf⟩ | hold'
      · exact absurd hf (hnot f (h.state_lt a f hold))
      · exact h.distinct a a' f hold hold'
  · intro a f ha hf
    rw [hlinks]
    rcases hstate a f ha with ⟨-, rfl⟩ | hold
    · exact ⟨update_self .., update_self ..⟩
    · have hlt := hnot f (h.state_lt a f hold)
      obtain ⟨hn, hp⟩ := h.unlinked a f hold hf
      exact ⟨(update_of_ne hlt ..).trans hn, (update_of_ne hlt ..).trans hp⟩

section

variable (h : s.InOrder)
include h

lemma InOrder.openEffect (ha : s.driver.fileOf a = some f) (hf : f ∉ s.opened)
    (heffect : OpenEffect s.driver f d ok) (hfull : ok = true → s.opened.length < 65535) :
    InOrder ⟨d, if ok then f :: s.opened else s.opened⟩ := by
  have hfileOf : ∀ b, d.fileOf b = s.driver.fileOf b := fileOf_congr heffect.handles
  cases ok with
  | false =>
    apply h.of_listKept { heffect with }
    intro b g hb
    rw [← hfileOf b]
    exact hb
  | true =>
    have hlinks : d.links = s.driver.links.pushFront f := heffect.links
    have hcount : d.openFileCount = s.driver.openFileCount + 1 := heffect.count
    refine ⟨?_, ?_, nodup_cons.mpr ⟨hf, h.nodup⟩, ?_, ?_, ?_, ?_⟩
    · rw [hlinks]
      exact h.lists.pushFront h.nodup hf
    · have hlt := hfull rfl
      have hold := h.count
      rw [hcount, UInt16.toNat_add, hold]
      exact Nat.mod_eq_of_lt (Nat.succ_lt_succ hlt)
    · intro g hg
      rcases mem_cons.mp hg with rfl | hg
      · exact (h.state_lt a _ ha).trans_le heffect.next_le
      · exact (h.opened_lt g hg).trans_le heffect.next_le
    · intro b g hb
      rw [hfileOf] at hb
      exact (h.state_lt b g hb).trans_le heffect.next_le
    · intro b b' g hb hb'
      rw [hfileOf] at hb hb'
      exact h.distinct b b' g hb hb'
    · intro b g hb hg
      rw [hfileOf] at hb
      obtain ⟨hgf, hg⟩ : g ≠ f ∧ g ∉ s.opened := by simpa using hg
      obtain ⟨hn, hp⟩ := h.unlinked b g hb hg
      rw [hlinks]
      refine ⟨(update_of_ne hgf ..).trans hn, ?_⟩
      -- `g` is not in the list, so it is not the file that was the first
      rw [Links.pushFront_prev_of_ne hgf (fun hfirst => hg (h.lists.first_mem hfirst)), hp]

/-- The handles and the list after `NtfsOpenFile`, if a new handle is made. -/
lemma InOrder.newHandle (dirNi r flags : Nat) (data : Option DataAttr)
    (hfull : ∀ f, (s.driver.newHandle dirNi r flags data).2.openResult = some (f, true) →
      s.opened.length < 65535) :
    InOrder ⟨(s.driver.newHandle dirNi r flags data).1,
      match (s.driver.newHandle dirNi r flags data).2.openResult with
      | some (f, true) => f :: s.opened
      | _ => s.opened⟩ := by
  cases hdir : (s.driver.inodes r).isDirectory with
  | true =>
    simp only [Driver.newHandle, hdir, if_pos]
    apply h.of_listKept
    · refine ⟨?_, s.driver.openFileCount_addHandle dirNi r, ?_⟩
      · rw [links, files_addHandle_dir hdir, s.driver.firstOpenFile_addHandle]
        rfl
      · rw [s.driver.next_addHandle]
        omega
    · intro a f ha
      by_cases hne : a = s.driver.next
      · subst hne
        rw [fileOf_addHandle_dir hdir] at ha
        cases ha
      · rw [fileOf_addHandle_of_ne hne] at ha
        exact ha
  | false =>
    have hadd := @InOrder.addFile s h dirNi r hdir
    have hf : s.driver.next + 1 ∉ s.opened := by
      intro hmem
      have hlt := h.opened_lt _ hmem
      omega
    have heffect := (s.driver.addHandle dirNi r).openR_effect (s.driver.next + 1) r flags data
    have hresult : (s.driver.newHandle dirNi r flags data) =
        (((s.driver.addHandle dirNi r).openR (s.driver.next + 1) r flags data).1,
          { status := .success,
            openResult := some (s.driver.next + 1,
              ((s.driver.addHandle dirNi r).openR (s.driver.next + 1) r flags data).2) }) := by
      simp [Driver.newHandle, hdir]
    rw [hresult] at hfull ⊢
    have hopen := hadd.openEffect (fileOf_addHandle_file hdir) hf heffect
      (fun hok => hfull (s.driver.next + 1) (by rw [hok]))
    cases hok : ((s.driver.addHandle dirNi r).openR (s.driver.next + 1) r flags data).2 with
    | false =>
      rw [hok] at hopen
      exact hopen
    | true =>
      rw [hok] at hopen
      exact hopen

lemma InOrder.of_sameHandles (hkept : ListKept s.driver d)
    (hhandles : d.handles = s.driver.handles) : InOrder ⟨d, s.opened⟩ := by
  apply h.of_listKept hkept
  intro a f ha
  rw [fileOf_congr hhandles] at ha
  exact ha

lemma InOrder.openTarget (file : IFile) (q : OpenRequest) :
    InOrder ⟨((s.driver.setCwd file).openTarget q).1, s.opened⟩ := by
  have hkept := (Walked.refl (s.driver.setCwd file)).openTarget q
  apply h.of_sameHandles ((ListKept.setCwd s.driver file).trans hkept.listKept)
  exact hkept.handles.trans s.driver.handles_setCwd

lemma InOrder.openFile (file : IFile) (q : OpenRequest)
    (hfull : ∀ f, (s.driver.openFile file q).2.openResult = some (f, true) →
      s.opened.length < 65535) :
    InOrder ⟨(s.driver.openFile file q).1,
      match (s.driver.openFile file q).2.openResult with
      | some (f, true) => f :: s.opened
      | _ => s.opened⟩ := by
  have htarget := h.openTarget file q
  rcases s.driver.openFile_cases with hopen | ⟨d, hd, hopen⟩ | ⟨d, r, flags, -, hd, hopen⟩
  · rw [hopen]
    exact h
  · rw [hd] at htarget
    rw [hopen]
    exact htarget
  · rw [hd] at htarget
    rw [hopen] at hfull ⊢
    exact htarget.newHandle file.inode r flags q.data hfull

/-! ### Closing, deleting and reading -/

lemma InOrder.closeFile (ha : s.driver.handles a = some file) (hfile : file.fileState = some f)
    (hf : f ∈ s.opened) : InOrder ⟨(s.driver.closeFile a file).1, s.opened.erase f⟩ := by
  have hfileOf : s.driver.fileOf a = some f := by rw [fileOf, ha, Option.bind_some, hfile]
  have hlinks := closeFile_links hfile s.driver a
  have hcount := closeFile_count hfile s.driver a
  have hnext : s.driver.next ≤ (s.driver.closeFile a file).1.next := by
    rw [closeFile_eq hfile]
    exact closeR_next_le s.driver f
  have hother : ∀ b g, (s.driver.closeFile a file).1.fileOf b = some g →
      b ≠ a ∧ s.driver.fileOf b = some g := by
    intro b g hb
    rw [closeFile_eq hfile] at hb
    obtain ⟨hne, hb⟩ := fileOf_of_setHandle rfl hb
    have hsame := closeR_handles s.driver f
    exact ⟨hne, (fileOf_congr hsame b).symm.trans hb⟩
  refine ⟨?_, ?_, h.nodup.erase f, ?_, ?_, ?_, ?_⟩
  · rw [hlinks]
    exact h.lists.unlink h.nodup hf
  · have hpos : 0 < s.opened.length := length_pos_of_mem hf
    have hold := h.count
    have hone : (1 : UInt16) ≤ s.driver.openFileCount := by
      rw [UInt16.le_iff_toNat_le, hold]
      exact hpos
    rw [hcount, UInt16.toNat_sub_of_le _ _ hone, hold, length_erase_of_mem hf]
    rfl
  · intro g hg
    exact (h.opened_lt g (mem_of_mem_erase hg)).trans_le hnext
  · intro b g hb
    exact (h.state_lt b g (hother b g hb).2).trans_le hnext
  · intro b b' g hb hb'
    exact h.distinct b b' g (hother b g hb).2 (hother b' g hb').2
  · intro b g hb hg
    obtain ⟨hne, hother⟩ := hother b g hb
    -- the state belongs to another handle, so it is another state
    have hgf : g ≠ f := by
      intro heq
      rw [← heq] at hfileOf
      exact hne (h.distinct b a g hother hfileOf)
    have hg : g ∉ s.opened := by
      intro hmem
      exact hg ((mem_erase_of_ne hgf).mpr hmem)
    obtain ⟨hn, hp⟩ := h.unlinked b g hother hg
    rw [hlinks]
    exact ⟨(h.lists.unlink_next hf hg).trans hn, (h.lists.unlink_prev hf hg).trans hp⟩

/-- A handle that is not for an open file can be ended without a change of the list. -/
lemma InOrder.endHandle (hkept : ListKept s.driver d) (hhandles : d.handles = s.driver.handles) :
    InOrder ⟨d.setHandle a none, s.opened⟩ := by
  apply h.of_listKept (hkept.setHandle a none)
  intro b f hb
  obtain ⟨-, hb⟩ := fileOf_of_setHandle rfl hb
  rw [fileOf_congr hhandles] at hb
  exact hb

lemma InOrder.closeDirectory (a : Nat) (hfile : file.fileState = none) :
    InOrder ⟨(s.driver.closeFile a file).1, s.opened⟩ := by
  cases htype : file.type with
  | dir =>
    simp only [Driver.closeFile, htype]
    exact h.endHandle (.refl _) rfl
  | file =>
    have hstate : file.state = none := by
      rw [IFile.fileState, htype] at hfile
      exact hfile
    simp only [Driver.closeFile, htype, hstate]
    exact h.endHandle (.refl _) rfl

lemma InOrder.deleteFile (a : Nat) (file : IFile) (q : DeleteRequest) :
    InOrder ⟨(s.driver.deleteFile a file q).1, s.opened⟩ := by
  obtain ⟨d, hkept, hd⟩ := s.driver.deleteFile_eq a file q
  rw [hd]
  exact h.endHandle hkept.listKept hkept.handles

lemma InOrder.readFile (ha : s.driver.handles a = some file) (q : ReadRequest) :
    InOrder ⟨(s.driver.readFile a file q).1, s.opened⟩ ∧
      (s.driver.readFile a file q).2.openResult = none := by
  cases htype : file.type with
  | file =>
    cases hstate : file.state with
    | none =>
      simp only [Driver.readFile, htype, hstate]
      exact ⟨h, trivial⟩
    | some f =>
      have hread : InOrder ⟨(s.driver.readR f q.bufferSize q.rets).1, s.opened⟩ :=
        h.of_sameHandles ((ListKept.refl _).readR ..) (handles_readR ..)
      simp only [Driver.readFile, htype, hstate]
      rcases hd : s.driver.readR f q.bufferSize q.rets with ⟨d, _ | _⟩
      · rw [hd] at hread
        exact ⟨hread, rfl⟩
      · rw [hd] at hread
        exact ⟨hread, rfl⟩
  | dir =>
    have heffect := ReadEffect.readDirectory ha q
    simp only [Driver.readFile, htype]
    refine ⟨?_, trivial⟩
    apply h.of_listKept heffect.kept
    intro b f hb
    obtain ⟨file', htype', -, hhandles⟩ := heffect.handle
    rw [fileOf, hhandles] at hb
    by_cases hne : b = a
    · subst hne
      rw [update_self, Option.bind_some, IFile.fileState, htype', htype] at hb
      cases hb
    · rw [update_of_ne hne] at hb
      exact hb

lemma InOrder.openVolume (root : Option NtfsInode) :
    InOrder ⟨(s.driver.openVolume root).1, s.opened⟩ ∧
      (s.driver.openVolume root).2.openResult = none := by
  have hnew : ∀ (d : Driver) (r : Nat), ListKept s.driver d → d.handles = s.driver.handles →
      InOrder ⟨d.rootHandle r, s.opened⟩ := by
    intro d r hkept hhandles
    refine h.of_listKept ⟨hkept.links, hkept.count, hkept.next_le.trans (Nat.le_succ _)⟩ ?_
    intro b f hb
    obtain ⟨-, hb⟩ := fileOf_of_setHandle rfl hb
    exact (fileOf_congr hhandles b).symm.trans hb
  rw [Driver.openVolume, openRoot]
  cases hroot : s.driver.root with
  | some r => exact ⟨hnew s.driver r (.refl _) rfl, rfl⟩
  | none =>
    cases root with
    | none =>
      refine ⟨?_, rfl⟩
      exact h.of_sameHandles ⟨rfl, rfl, le_rfl⟩ rfl
    | some ni =>
      refine ⟨hnew { (s.driver.inodeOpen (some ni)).1 with root := some s.driver.next }
        s.driver.next ⟨rfl, rfl, Nat.le_succ _⟩ rfl, rfl⟩

lemma InOrder.abandonVolume (uninstalled : Bool) :
    InOrder ⟨(s.driver.abandonVolume uninstalled).1, s.opened⟩ ∧
      (s.driver.abandonVolume uninstalled).2.openResult = none := by
  rw [Driver.abandonVolume]
  cases uninstalled with
  | false => exact ⟨h, rfl⟩
  | true =>
    cases hroot : s.driver.root with
    | none => exact ⟨h, rfl⟩
    | some r => exact ⟨h.of_sameHandles ⟨rfl, rfl, le_rfl⟩ rfl, rfl⟩

end

/-! ### Sessions -/

lemma step_eq_some (hstep : s.step c = some s') :
    ∃ result, s.driver.call c = some result ∧ s' = ⟨result.1, s.openedAfter result.2 c⟩ := by
  obtain ⟨result, hcall, rfl⟩ := Option.map_eq_some_iff.mp hstep
  exact ⟨result, hcall, rfl⟩

lemma fileOf_eq (ha : s.driver.handles a = some file) : s.driver.fileOf a = file.fileState := by
  rw [fileOf, ha, Option.bind_some]

lemma InOrder.step (h : s.InOrder) (hstep : s.step c = some s') (htracked : s.Tracked c) :
    s'.InOrder := by
  obtain ⟨result, hcall, rfl⟩ := step_eq_some hstep
  cases answers_of_call hcall with
  | openVolume root =>
    obtain ⟨hinv, hopen⟩ := h.openVolume root
    simp only [openedAfter, hopen]
    exact hinv
  | abandonVolume uninstalled =>
    obtain ⟨hinv, hopen⟩ := h.abandonVolume uninstalled
    simp only [openedAfter, hopen]
    exact hinv
  | openFile ha q => exact h.openFile _ q fun f hf => htracked _ _ f hcall hf
  | readFile ha q =>
    obtain ⟨hinv, hopen⟩ := h.readFile ha q
    simp only [openedAfter, hopen]
    exact hinv
  | closeFile ha =>
    rename_i a file
    cases hfile : file.fileState with
    | none =>
      simp only [openedAfter, fileOf_eq ha, hfile]
      exact h.closeDirectory a hfile
    | some f =>
      simp only [openedAfter, fileOf_eq ha, hfile]
      exact h.closeFile ha hfile (htracked f ((fileOf_eq ha).trans hfile))
  | deleteFile ha q =>
    rename_i a file
    have hinv := h.deleteFile a file q
    cases hfile : file.fileState with
    | none =>
      simp only [openedAfter, fileOf_eq ha, hfile]
      exact hinv
    | some f =>
      simp only [openedAfter, fileOf_eq ha, hfile]
      rw [erase_of_not_mem (htracked f ((fileOf_eq ha).trans hfile))]
      exact hinv

lemma Exact.length_eq (h : s.Exact) : s.driver.openFileCount.toNat = s.opened.length := by
  obtain ⟨xs, hperm, -, hcount⟩ := h
  rw [hcount, hperm.length_eq]

/-- Closing a handle whose `ntfs_open_r` failed empties the list, or makes the counter
negative if it was empty. -/
lemma InOrder.not_exact_closeFile (h : s.InOrder) (ha : s.driver.handles a = some file)
    (hfile : file.fileState = some f) (hf : f ∉ s.opened) :
    ¬ Exact ⟨(s.driver.closeFile a file).1, s.opened⟩ := by
  obtain ⟨hnext, hprev⟩ := h.unlinked a f ((fileOf_eq ha).trans hfile) hf
  have hlinks := closeFile_links hfile s.driver a
  have hfirst : (s.driver.closeFile a file).1.links.first = none := by
    rw [hlinks, Links.unlink, hprev, hnext]
  rintro ⟨xs, hperm, hlists, hcount⟩
  have hnil : xs = [] := hlists.nil_of_first hfirst
  have hempty : s.opened = [] := by
    rw [hnil] at hperm
    exact hperm.symm.eq_nil
  have hzero : s.driver.openFileCount = 0 := by
    apply UInt16.toNat_inj.mp
    rw [h.count, hempty]
    rfl
  rw [closeFile_count hfile, hzero, hnil] at hcount
  exact absurd hcount (by decide)

/-- After the deletion of an open file its state is still in the list. -/
lemma InOrder.not_exact_deleteFile (h : s.InOrder) (hf : f ∈ s.opened) :
    ¬ Exact ⟨(s.driver.deleteFile a file q).1, s.opened.erase f⟩ := by
  have hlists := (h.deleteFile a file q).lists
  rintro ⟨xs, hperm, hxs, -⟩
  obtain rfl : xs = s.opened := hxs.unique hlists
  have hlength := hperm.length_eq
  have hpos := length_pos_of_mem hf
  rw [length_erase_of_mem hf] at hlength
  omega

lemma InOrder.not_exact_of_not_tracked (h : s.InOrder) (hstep : s.step c = some s')
    (hnot : ¬ s.Tracked c) : ¬ s'.Exact := by
  obtain ⟨result, hcall, rfl⟩ := step_eq_some hstep
  cases answers_of_call hcall with
  | openVolume root => exact absurd trivial hnot
  | abandonVolume uninstalled => exact absurd trivial hnot
  | readFile ha q => exact absurd trivial hnot
  | openFile ha q =>
    simp only [Tracked, not_forall] at hnot
    obtain ⟨d, returned, f, hcall', hopen, hfull⟩ := hnot
    have hresult := Option.some.inj (hcall.symm.trans hcall')
    intro hexact
    -- the counter has sixteen bits
    have hlength := hexact.length_eq
    rw [hresult] at hlength
    simp only [openedAfter, hopen, length_cons] at hlength
    have hlt := UInt16.toNat_lt d.openFileCount
    omega
  | closeFile ha =>
    simp only [Tracked, not_forall] at hnot
    obtain ⟨f, hf, hnotmem⟩ := hnot
    have hfile := (fileOf_eq ha).symm.trans hf
    simp only [openedAfter, hf, erase_of_not_mem hnotmem]
    exact h.not_exact_closeFile ha hfile hnotmem
  | deleteFile ha q =>
    simp only [Tracked, not_forall, not_not] at hnot
    obtain ⟨f, hf, hmem⟩ := hnot
    simp only [openedAfter, hf]
    exact h.not_exact_deleteFile hmem

/-- The list of open files is exact in every state of a session exactly if no handle is
closed whose `ntfs_open_r` failed, none is deleted whose `ntfs_open_r` succeeded, and no
file is opened while 65535 are open. -/
theorem exact_throughout_iff (calls : List Call) :
    Throughout step Exact mounted calls ↔ EachCall step Tracked mounted calls :=
  throughout_iff_eachCall (fun _ h => InOrder.exact h)
    (fun _ _ _ h hstep htracked => InOrder.step h hstep htracked)
    (fun _ _ _ h hstep hnot => InOrder.not_exact_of_not_tracked h hstep hnot)
    inOrder_mounted calls

end Session

/-! ### A handle whose `ntfs_open_r` failed -/

def rootInode : NtfsInode where
  mftNo := fileRoot
  isDirectory := true
  readOnly := false
  compressed := false
  encrypted := false
  symlink := false

/-- A file with the number `mftNo` in the root directory. -/
def fileInode (mftNo : Nat) (encrypted : Bool) : NtfsInode where
  mftNo := mftNo
  isDirectory := false
  readOnly := false
  compressed := false
  encrypted := encrypted
  symlink := false

def openForReading (ni : NtfsInode) : OpenRequest where
  openMode := efiFileModeRead
  attributes := 0
  rootPath := false
  root := none
  entry := [⟨.absolute rootInode [.found (some ni)], false⟩]
  parent := []
  created := none
  data := some ⟨false, false, 10⟩

/-- A file is opened, an encrypted one is opened, and the handle of the latter is closed. -/
def closeEncrypted : List Call :=
  [.openVolume (some rootInode), .openFile 1 (openForReading (fileInode 40 false)),
    .openFile 1 (openForReading (fileInode 41 true)), .closeFile 9]

/-- The first file is still open, but the list is empty. -/
lemma closeEncrypted_list :
    (run Session.step Session.mounted closeEncrypted).map
      (fun s => (s.opened, s.driver.firstOpenFile, s.driver.openFileCount)) =
        some ([5], none, 0) := by
  decide +kernel

theorem closeEncrypted_not_exact :
    ¬ Throughout Session.step Session.Exact Session.mounted closeEncrypted := by
  obtain ⟨s, hrun, hs⟩ := Option.map_eq_some_iff.mp closeEncrypted_list
  obtain ⟨hopened, hfirst, -⟩ : s.opened = [5] ∧ s.driver.firstOpenFile = none ∧
      s.driver.openFileCount = 0 := by simpa using hs
  intro h
  obtain ⟨xs, hperm, hlists, -⟩ := h.last hrun
  have hnil : xs = [] := hlists.nil_of_first hfirst
  rw [hnil, hopened] at hperm
  exact absurd hperm.length_eq (by decide)

end NtfsDxe
