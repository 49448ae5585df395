import NtfsDxe.Directory.Delete

/-! # The steps of deleting a name

The records that have been given back, together with those that the file still has, stay the
same until the file itself is freed: only extent records without an attribute are given back
before. The clusters that are given back before are those of an attribute list that is no longer
needed, as far as this succeeds.
-/

namespace NtfsDxe

open Foundation Prog List Residence DeleteState LinkedFile

/-! ## Clusters and records of a file -/

/-- The clusters that `ntfs_cluster_free_from_rl` gives back. -/
def rlClusters : List RunlistElement → List Nat
  | [] => []
  | e :: rest =>
    if e.length = 0 then []
    else if 0 ≤ e.lcn then runLcns e ++ rlClusters rest
    else rlClusters rest

def Residence.clusters : Residence → List Nat
  | .resident => []
  | .nonResident none => []
  | .nonResident (some rl) => rlClusters rl

namespace LinkedFile

def listClusters (ni : LinkedFile) : List Nat := ni.attributeList.toList.flatMap clusters

def otherClusters (ni : LinkedFile) : List Nat :=
  (ni.others.map OtherAttr.residence).flatMap clusters

lemma residences_clusters (ni : LinkedFile) :
    ni.residences.flatMap clusters = ni.listClusters ++ ni.otherClusters :=
  flatMap_append

end LinkedFile

/-- The records of the attributes are records of the file, and the base record holds more
than names. -/
structure LinkedFile.Held (ni : LinkedFile) : Prop where
  name_holder : ∀ fn ∈ ni.names, ∀ x, fn.holder = some x → x ∈ ni.extents
  other_holder : ∀ a ∈ ni.others, ∀ x, a.holder = some x → x ∈ ni.extents
  base : ∃ a ∈ ni.others, a.holder = none

/-- Records change from the file to those given back, and all clusters that are given back are
noted as clusters of the attribute list. -/
structure Tracked (s s' : DeleteState) : Prop where
  mftNo : s'.ni.mftNo = s.ni.mftNo
  others : s'.ni.others = s.ni.others
  clusters : ∃ cleared, s'.clearedClusters = s.clearedClusters ++ cleared ∧
    s'.listCleared = s.listCleared ++ cleared
  records : (s'.clearedRecords ++ s'.ni.extents).Perm (s.clearedRecords ++ s.ni.extents)

lemma Tracked.of_eq (hni : s'.ni = s.ni) (hclusters : s'.clearedClusters = s.clearedClusters)
    (hlist : s'.listCleared = s.listCleared) (hrecords : s'.clearedRecords = s.clearedRecords) :
    Tracked s s' where
  mftNo := by rw [hni]
  others := by rw [hni]
  clusters := ⟨[], by rw [hclusters, append_nil], by rw [hlist, append_nil]⟩
  records := by rw [hrecords, hni]

lemma Tracked.refl (s : DeleteState) : Tracked s s := .of_eq rfl rfl rfl rfl

lemma Tracked.trans (h₁ : Tracked s s₁) (h₂ : Tracked s₁ s₂) : Tracked s s₂ where
  mftNo := h₂.mftNo.trans h₁.mftNo
  others := h₂.others.trans h₁.others
  clusters := by
    obtain ⟨c₁, hcleared₁, hlist₁⟩ := h₁.clusters
    obtain ⟨c₂, hcleared₂, hlist₂⟩ := h₂.clusters
    refine ⟨c₁ ++ c₂, ?_, ?_⟩
    · rw [hcleared₂, hcleared₁, append_assoc]
    · rw [hlist₂, hlist₁, append_assoc]
  records := h₂.records.trans h₁.records

structure IndexKept (s s' : DeleteState) : Prop where
  entries : s'.entries = s.entries
  doubled : s'.doubled = s.doubled
  missing : s'.missing = s.missing

lemma IndexKept.refl (s : DeleteState) : IndexKept s s := ⟨rfl, rfl, rfl⟩

lemma IndexKept.trans (h₁ : IndexKept s s₁) (h₂ : IndexKept s₁ s₂) : IndexKept s s₂ where
  entries := h₂.entries.trans h₁.entries
  doubled := h₂.doubled.trans h₁.doubled
  missing := h₂.missing.trans h₁.missing

/-- A step within one removal: the directories and the link count stay. -/
structure FileKept (s : DeleteState) (names : List FileName) (s' : DeleteState) : Prop where
  tracked : Tracked s s'
  held : s'.ni.Held
  index : IndexKept s s'
  linkCount : s'.ni.linkCount = s.ni.linkCount
  names : s'.ni.names = names

lemma FileKept.refl (h : s.ni.Held) : FileKept s s.ni.names s :=
  ⟨.refl s, h, .refl s, rfl, rfl⟩

lemma FileKept.trans (h₁ : FileKept s names₁ s₁)
    (h₂ : FileKept s₁ names₂ s₂) : FileKept s names₂ s₂ where
  tracked := h₁.tracked.trans h₂.tracked
  held := h₂.held
  index := h₁.index.trans h₂.index
  linkCount := h₂.linkCount.trans h₁.linkCount
  names := h₂.names

lemma FileKept.answered (h : s.ni.Held) : FileKept s s.ni.names s.answered :=
  ⟨.of_eq rfl rfl rfl rfl, h, ⟨rfl, rfl, rfl⟩, rfl, rfl⟩

/-! ## Requests -/

section

/-- After a request the program goes on, or it has failed. -/
lemma wp_deleteRequest (hQ : Q () s.answered) (hE : E .storage s.answered) :
    wp deleteRequest Q E s := by
  unfold wp deleteRequest
  by_cases hhead : s.io.head? = some false
  · simpa [hhead] using hE
  · simpa [hhead] using hQ

/-- Freeing a runlist clears clusters and nothing else, and all its clusters if it succeeds. -/
lemma freeFromRl_spec :
    wp (freeFromRl rl)
      (fun _ s' => ∃ k, s' = { s with
        clearedClusters := s.clearedClusters ++ rlClusters rl, io := s.io.drop k })
      (fun _ s' => ∃ k cleared, s' = { s with
        clearedClusters := s.clearedClusters ++ cleared, io := s.io.drop k }) s := by
  induction rl generalizing s with
  | nil => exact ⟨0, by simp [rlClusters]⟩
  | cons e rest ih =>
    rw [freeFromRl, rlClusters]
    by_cases hlength : e.length = 0
    · rw [if_pos hlength, if_pos hlength]
      exact ⟨0, by simp⟩
    rw [if_neg hlength, if_neg hlength]
    by_cases hlcn : 0 ≤ e.lcn
    · rw [if_pos hlcn, if_pos hlcn, wp_bind]
      refine wp_deleteRequest ?_ ⟨1, [], by simp [answered]⟩
      refine wp_mono ih ?_ ?_
      · rintro _ s' ⟨k, rfl⟩
        refine ⟨k + 1, ?_⟩
        simp [answered]
      · rintro _ s' ⟨k, cleared, rfl⟩
        refine ⟨k + 1, runLcns e ++ cleared, ?_⟩
        simp [answered]
    · rw [if_neg hlcn, if_neg hlcn]
      exact ih

end

/-! ## Removing an attribute -/

section

variable {s : DeleteState} (h : s.ni.Held)
include h

lemma releaseRecord_kept (hx : x ∈ s.ni.extents) (hempty : s.ni.isEmptyRecord (some x) = true) :
    wp (releaseRecord x) (fun _ s' => FileKept s s.ni.names s')
      (fun _ s' => FileKept s s.ni.names s') s := by
  simp only [isEmptyRecord, Bool.and_eq_true, all_eq_true, decide_eq_true_eq] at hempty
  obtain ⟨⟨hnames, hothers⟩, -⟩ := hempty
  rw [releaseRecord, wp_bind]
  refine wp_deleteRequest ?_ (FileKept.answered h)
  have hstay : ∀ y, y ∈ s.ni.extents → y ≠ x → y ∈ s.ni.extents.erase x :=
    fun y hy hne => (mem_erase_of_ne hne).mpr hy
  refine ⟨⟨rfl, rfl, ⟨[], (append_nil _).symm, (append_nil _).symm⟩, ?_⟩, ⟨?_, ?_, h.base⟩,
    ⟨rfl, rfl, rfl⟩, rfl, rfl⟩
  · rw [append_assoc]
    exact List.Perm.append_left _ (perm_cons_erase hx).symm
  · intro fn hfn y hy
    refine hstay y (h.name_holder fn hfn y hy) ?_
    rintro rfl
    exact hnames fn hfn hy
  · intro a ha y hy
    refine hstay y (h.other_holder a ha y hy) ?_
    rintro rfl
    exact hothers a ha hy

lemma freeIfEmpty_kept (hx : ∀ x, holder = some x → x ∈ s.ni.extents) :
    wp (freeIfEmpty holder) (fun _ s' => FileKept s s.ni.names s')
      (fun _ s' => FileKept s s.ni.names s') s := by
  rw [freeIfEmpty, wp_bind, wp_reads]
  by_cases hempty : s.ni.isEmptyRecord holder = true
  · rw [if_pos hempty]
    cases holder with
    | some x => exact releaseRecord_kept h (hx x rfl) hempty
    | none =>
      obtain ⟨a, ha, hbase⟩ := h.base
      simp only [isEmptyRecord, Bool.and_eq_true, all_eq_true,
        decide_eq_true_eq] at hempty
      exact absurd hbase (hempty.1.2 a ha)
  · rw [if_neg hempty]
    exact FileKept.refl h

lemma eraseAttributeList_kept :
    wp eraseAttributeList (fun _ s' => FileKept s s.ni.names s')
      (fun _ s' => FileKept s s.ni.names s') s := by
  rw [eraseAttributeList, wp_bind]
  refine wp_deleteRequest ?_ (FileKept.answered h)
  rw [wp_bind, wp_modify]
  generalize hs₁ : s.answered.setFile { s.answered.ni with attributeList := none } = s₁
  have hkept : FileKept s s.ni.names s₁ := by
    subst hs₁
    exact ⟨⟨rfl, rfl, ⟨[], (append_nil _).symm, (append_nil _).symm⟩, .refl _⟩, { h with },
      ⟨rfl, rfl, rfl⟩, rfl, rfl⟩
  have hextent : ∀ x, (none : Option Nat) = some x → x ∈ s₁.ni.extents := by simp
  refine wp_mono (freeIfEmpty_kept hkept.held hextent) ?_ ?_
  · intro _ s' hs'
    exact hkept.names ▸ hkept.trans hs'
  · intro _ s' hs'
    exact hkept.names ▸ hkept.trans hs'

/-- The clusters that have been given back are noted. -/
lemma noteCleared_kept (k : Nat) (cleared : List Nat) :
    FileKept s s.ni.names { s with
      clearedClusters := s.clearedClusters ++ cleared
      io := s.io.drop k
      listCleared := s.listCleared ++
        (s.clearedClusters ++ cleared).drop s.clearedClusters.length } := by
  refine ⟨⟨rfl, rfl, ⟨cleared, rfl, ?_⟩, .refl _⟩, h, ⟨rfl, rfl, rfl⟩, rfl, rfl⟩
  rw [drop_left]

lemma dropResidence_kept :
    wp (dropResidence s.ni.attributeList) (fun _ s' => FileKept s s.ni.names s')
      (fun _ s' => FileKept s s.ni.names s') s := by
  cases s.ni.attributeList with
  | none => exact FileKept.refl h
  | some residence =>
    cases residence with
    | resident => exact eraseAttributeList_kept h
    | nonResident runs =>
      cases runs with
      | none => exact FileKept.refl h
      | some rl =>
        have herase : ∀ k cleared, wp eraseAttributeList (fun _ s' => FileKept s s.ni.names s')
            (fun _ s' => FileKept s s.ni.names s') _ := fun k cleared => by
          have hnoted := noteCleared_kept h k cleared
          refine wp_mono (eraseAttributeList_kept hnoted.held) ?_ ?_
          · intro _ s' hs'
            exact hnoted.trans hs'
          · intro _ s' hs'
            exact hnoted.trans hs'
        rw [dropResidence, wp_bind, wp_reads, wp_bind, wp_attempt]
        refine wp_mono freeFromRl_spec ?_ ?_
        · rintro _ _ ⟨k, rfl⟩
          exact herase k _
        · rintro _ _ ⟨k, cleared, rfl⟩
          exact herase k cleared

lemma dropAttributeList_kept :
    wp dropAttributeList (fun _ s' => FileKept s s.ni.names s') (fun _ _ => True) s := by
  rw [dropAttributeList, wp_bind, wp_attempt, wp_bind]
  refine wp_deleteRequest ?_ (FileKept.answered h)
  have hanswered := FileKept.answered h
  refine wp_mono (dropResidence_kept hanswered.held) ?_ ?_
  · intro _ s' hs'
    exact hanswered.trans hs'
  · intro _ s' hs'
    exact hanswered.trans hs'

lemma attrlistEntryRm_kept :
    wp attrlistEntryRm (fun _ s' => FileKept s s.ni.names s' ∧
      s'.ni = s.ni) (fun _ _ => True) s := by
  rw [attrlistEntryRm, wp_bind, wp_reads]
  split
  · exact wp_deleteRequest ⟨FileKept.answered h, rfl⟩ trivial
  · exact ⟨FileKept.refl h, rfl⟩

lemma dropUnneededList_kept :
    wp dropUnneededList (fun _ s' => FileKept s s.ni.names s') (fun _ _ => True) s := by
  rw [dropUnneededList, wp_bind, wp_reads]
  split
  · exact dropAttributeList_kept h
  · exact FileKept.refl h

/-- A removed name is the only attribute that goes, apart from the attribute list. -/
lemma fileNameRecordRm_kept (hfn : fn ∈ s.ni.names) :
    wp (fileNameRecordRm fn) (fun _ s' => FileKept s (s.ni.names.erase fn) s')
      (fun _ _ => True) s := by
  rw [fileNameRecordRm, wp_bind]
  refine wp_deleteRequest ?_ trivial
  rw [wp_bind, wp_modify]
  generalize hs₁ :
    s.answered.setFile { s.answered.ni with names := s.answered.ni.names.erase fn } = s₁
  have hkept : FileKept s (s.ni.names.erase fn) s₁ := by
    subst hs₁
    exact ⟨⟨rfl, rfl, ⟨[], (append_nil _).symm, (append_nil _).symm⟩, .refl _⟩,
      ⟨fun n hn => h.name_holder n (mem_of_mem_erase hn), h.other_holder, h.base⟩,
      ⟨rfl, rfl, rfl⟩, rfl, rfl⟩
  have hextent : ∀ x, fn.holder = some x → x ∈ s₁.ni.extents := by
    subst hs₁
    exact h.name_holder fn hfn
  refine wp_then (attrlistEntryRm_kept hkept.held) ?_
  rintro _ s₂ ⟨hs₂, hfile⟩
  refine wp_then (freeIfEmpty_kept hs₂.held (hfile ▸ hextent)) ?_
  intro _ s₃ hs₃
  refine wp_mono (dropUnneededList_kept hs₃.held) ?_ fun _ _ _ => trivial
  intro _ s₄ hs₄
  have hall := ((hkept.trans hs₂).trans hs₃).trans hs₄
  rwa [hs₃.names, hs₂.names, hkept.names] at hall

end

end NtfsDxe
