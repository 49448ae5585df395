import Mathlib.Data.List.Nodup
import Mathlib.Data.List.Perm.Subperm
import NtfsDxe.Directory.DeleteLinks

/-! # Which names a deletion takes

The DOS and the WIN32 name that `ntfs_delete` takes are the first ones of the file in their
namespace, whatever directory they belong to. So a call that succeeds deletes the named link if,
and only if, these are the names of the given directory, the index and the attribute list apart:
there a failure can remain without an error.
-/

namespace NtfsDxe

open Foundation Prog List Bool Option

/-! ## The search -/

section

variable {names : List FileName} {r : NameSearch × FileName}

/-- Without zeros the case sensitive match is equality. -/
lemma find?_matchesName (hzero : ∀ fn ∈ names, ∀ c ∈ fn.name, c ≠ 0) :
    names.find? (matchesName rules true dir name) =
      names.find? fun fn => fn.parent == dir && fn.name == name := by
  induction names with
  | nil => rfl
  | cons fn rest ih =>
    have hmatch : matchesName rules true dir name fn = (fn.parent == dir && fn.name == name) := by
      rw [matchesName, Bool.true_or, if_pos rfl]
      congr 1
      rw [Bool.eq_iff_iff, namesAreEqual_caseSensitive_iff rules.upcase
        (hzero fn mem_cons_self), beq_iff_eq]
    rw [find?_cons, find?_cons, hmatch, ih fun n hn => hzero n (mem_cons_of_mem fn hn)]

/-- What the first search yields for an attribute with the name: for a WIN32 name the first
DOS name instead. -/
structure FoundFor (names : List FileName) (fn : FileName) (r : NameSearch × FileName) : Prop where
  looking : r.1.lookingForDosName = (fn.nameType == .win32 || fn.nameType == .dos)
  dos : fn.nameType = .win32 → firstOfType .dos names = some r.2
  same : fn.nameType ≠ .win32 → r.2 = fn

def passFor (names : List FileName) (caseMatch : Bool) (fn : FileName) :
    NameSearch × Option FileName :=
  if fn.nameType = .win32 then (⟨true, false, caseMatch⟩, firstOfType .dos names)
  else (⟨fn.nameType == .dos, false, caseMatch⟩, some fn)

lemma searchPass_match (hfind : names.find? (matchesName rules caseMatch dir name) = some fn) :
    searchPass rules dir name names ⟨false, false, caseMatch⟩ = passFor names caseMatch fn := by
  simp only [searchPass, passFor, hfind, false_eq_true, if_false]

lemma searchPass_none (hfind : names.find? (matchesName rules caseMatch dir name) = none) :
    searchPass rules dir name names ⟨false, false, caseMatch⟩ =
      (⟨false, false, caseMatch⟩, none) := by
  simp only [searchPass, hfind, false_eq_true, if_false]

lemma foundFor_of_pass (hpass : passFor names caseMatch fn = (r.1, some r.2)) :
    FoundFor names fn r := by
  unfold passFor at hpass
  by_cases htype : fn.nameType = .win32
  · rw [if_pos htype, Prod.mk.injEq] at hpass
    refine ⟨?_, fun _ => hpass.2, fun hne => absurd htype hne⟩
    rw [← hpass.1, htype]
    rfl
  · rw [if_neg htype, Prod.mk.injEq] at hpass
    refine ⟨?_, fun heq => absurd heq htype, fun _ => (some.inj hpass.2).symm⟩
    rw [← hpass.1]
    simp [htype]

/-- A pass that has found nothing has looked for a missing DOS name. -/
lemma passFor_none (hnone : (passFor names caseMatch fn).2 = none) :
    firstOfType .dos names = none ∧
      passFor names caseMatch fn = (⟨true, false, caseMatch⟩, none) := by
  unfold passFor at hnone ⊢
  by_cases htype : fn.nameType = .win32
  · rw [if_pos htype] at hnone ⊢
    exact ⟨hnone, Prod.ext rfl hnone⟩
  · rw [if_neg htype] at hnone
    exact absurd hnone (some_ne_none fn)

lemma searchAgain_of_some (hsome : p.2 ≠ none) : searchAgain rules dir name names p = p := by
  rw [searchAgain]
  simp [hsome]

/-- A pass that looks for the DOS name is made again with the same result. -/
lemma searchAgain_dos (hdos : firstOfType .dos names = none) :
    (searchAgain rules dir name names (⟨true, false, true⟩, none)).2 = none :=
  hdos

lemma searchAgain_named {ni : LinkedFile} (hzero : ∀ fn ∈ ni.names, ∀ c ∈ fn.name, c ≠ 0)
    (hnamed : ni.named rules dir name = some fn) (hfound : searchAgain rules dir name ni.names
      (searchPass rules dir name ni.names ⟨false, false, true⟩) = (r.1, some r.2)) :
    FoundFor ni.names fn r := by
  rw [LinkedFile.named, ← find?_matchesName hzero] at hnamed
  cases hexact : ni.names.find? (matchesName rules true dir name) with
  | some fn₀ =>
    rw [hexact] at hnamed
    obtain rfl : fn₀ = fn := some.inj hnamed
    rw [searchPass_match hexact] at hfound
    by_cases hnone : (passFor ni.names true fn₀).2 = none
    · obtain ⟨hdos, hpass⟩ := passFor_none hnone
      rw [hpass] at hfound
      exact absurd ((congrArg Prod.snd hfound).symm.trans (searchAgain_dos hdos))
        (some_ne_none r.2)
    · rw [searchAgain_of_some hnone] at hfound
      exact foundFor_of_pass hfound
  | none =>
    rw [hexact] at hnamed
    rw [searchPass_none hexact] at hfound
    refine foundFor_of_pass ((searchPass_match ?_).symm.trans hfound)
    exact hnamed

lemma foundName_spec :
    wp (foundName p) (fun r s' => p = (r.1, some r.2) ∧ s' = s.answered) (fun _ _ => True) s := by
  obtain ⟨q, _ | fn⟩ := p
  · trivial
  · rw [foundName, wp_bind]
    exact wp_deleteRequest ⟨rfl, rfl⟩ trivial

lemma searchFileName_spec :
    wp (searchFileName rules dir name q)
      (fun r s' => searchAgain rules dir name s.ni.names
        (searchPass rules dir name s.ni.names q) = (r.1, some r.2) ∧ ∃ k, s' = s.later k)
      (fun _ _ => True) s := by
  rw [searchFileName, wp_bind]
  refine wp_deleteRequest ?_ trivial
  rw [wp_bind, wp_reads, s.answered_eq]
  refine wp_mono foundName_spec ?_ fun _ _ _ => trivial
  rintro r s' ⟨hfound, rfl⟩
  exact ⟨hfound, 2, s.later_answered⟩

lemma searchAgain_win32 (hfound : searchAgain rules dir name names
      (searchPass rules dir name names ⟨false, true, caseMatch⟩) = (r.1, some r.2)) :
    firstOfType .win32 names = some r.2 := by
  unfold searchAgain at hfound
  split at hfound
  · exact congrArg Prod.snd hfound
  · exact congrArg Prod.snd hfound

end

/-! ## The names -/

section

lemma LinkedFile.named_mem {ni : LinkedFile} (h : ni.named rules dir name = some fn) :
    fn ∈ ni.names := by
  rw [LinkedFile.named] at h
  cases hexact : ni.names.find? fun n => n.parent == dir && n.name == name with
  | some n =>
    rw [hexact] at h
    obtain rfl : n = fn := some.inj h
    exact mem_of_find?_eq_some hexact
  | none =>
    rw [hexact] at h
    exact mem_of_find?_eq_some h

lemma firstOfType_mem (h : firstOfType type names = some fn) : fn ∈ names :=
  mem_of_find?_eq_some h

lemma firstOfType_type (h : firstOfType type names = some fn) : fn.nameType = type := by
  have hmatch := find?_some h
  exact beq_iff_eq.mp hmatch

/-- Names of other namespaces do not matter for the first one of a namespace. -/
lemma firstOfType_erase (htype : fn.nameType ≠ type) :
    firstOfType type (names.erase fn) = firstOfType type names := by
  induction names with
  | nil => rfl
  | cons n rest ih =>
    by_cases hn : n = fn
    · rw [hn, erase_cons_head, firstOfType, firstOfType, find?_cons_of_neg]
      simpa using htype
    · rw [erase_cons_tail (by simpa using hn)]
      unfold firstOfType at ih ⊢
      rw [find?_cons, find?_cons, ih]

lemma FoundFor.dos_name (hs : LinksWellFormed s) (hfn : fn ∈ s.ni.names)
    (h : FoundFor s.ni.names fn r) (hlooking : r.1.lookingForDosName = true) :
    r.2 ∈ s.ni.names ∧ r.2.nameType = .dos ∧ (∃ w ∈ s.ni.names, w.nameType = .win32) ∧
      s.ni.takenNames fn = r.2 :: (firstOfType .win32 s.ni.names).toList := by
  rw [h.looking, or_eq_true, beq_iff_eq, beq_iff_eq] at hlooking
  rcases hlooking with hwin32 | hdos
  · have hfirst := h.dos hwin32
    refine ⟨firstOfType_mem hfirst, firstOfType_type hfirst, ⟨fn, hfn, hwin32⟩, ?_⟩
    rw [LinkedFile.takenNames, hwin32, hfirst]
    rfl
  · have hsame : r.2 = fn := h.same (by simp [hdos])
    obtain ⟨w, hw, htype, -⟩ := hs.twin fn hfn hdos
    refine ⟨hsame ▸ hfn, hsame ▸ hdos, ⟨w, hw, htype⟩, ?_⟩
    rw [LinkedFile.takenNames, hdos, hsame]

lemma FoundFor.single_name (h : FoundFor names fn r) (hlooking : r.1.lookingForDosName = false) :
    r.2 = fn ∧ ∀ ni : LinkedFile, ni.takenNames fn = [fn] := by
  rw [h.looking, or_eq_false_iff, beq_eq_false_iff_ne, beq_eq_false_iff_ne] at hlooking
  refine ⟨h.same hlooking.1, fun ni => ?_⟩
  unfold LinkedFile.takenNames
  cases htype : fn.nameType with
  | win32 => exact absurd htype hlooking.1
  | dos => exact absurd htype hlooking.2
  | posix => rfl
  | win32AndDos => rfl

lemma two_le_linkCount (hs : LinksWellFormed s) (hfn : fn ∈ s.ni.names)
    (hfn' : fn' ∈ s.ni.names) (hne : fn ≠ fn') : 2 ≤ s.ni.linkCount := by
  have hsub : [fn, fn'] ⊆ s.ni.names := by
    intro n hn
    rcases mem_cons.mp hn with rfl | hn
    · exact hfn
    · exact mem_singleton.mp hn ▸ hfn'
  have hnodup : [fn, fn'].Nodup := by simpa using hne
  rw [hs.linkCount]
  exact (hnodup.subperm hsub).length_le

lemma NameRemoved.of_later (h : NameRemoved (s.later k) dir fn s') : NameRemoved s dir fn s' := by
  obtain ⟨e, hname, herased, hnot⟩ := h.index
  exact ⟨⟨e, hname, { herased with }, hnot⟩, h.linkCount, h.names, { h.tracked with }, h.held⟩

/-- The names that go are the names taken, and the rest of the file is kept. -/
lemma unlinkNames_spec (hs : LinksWellFormed s) (h : s.ni.Held)
    (hnamed : s.ni.named rules dir name = some fn) :
    wp (unlinkNames rules dir name) (fun _ s' => Unlinked s dir (s.ni.takenNames fn) s')
      (fun _ _ => True) s := by
  have hfn := LinkedFile.named_mem hnamed
  refine wp_then searchFileName_spec ?_
  rintro r _ ⟨hfound, k, rfl⟩
  have hfor := searchAgain_named hs.noZero hnamed hfound
  have hmem : r.2 ∈ s.ni.names := by
    cases hlooking : r.1.lookingForDosName with
    | true => exact (hfor.dos_name hs hfn hlooking).1
    | false => exact (hfor.single_name hlooking).1 ▸ hfn
  have hpos := hs.linkCount ▸ length_pos_of_mem hmem
  refine wp_then (removeName_spec rules dir h hpos hs.links_lt hmem) ?_
  rintro q s₁ ⟨hremoved, hq⟩
  replace hremoved := hremoved.of_later
  cases hlooking : r.1.lookingForDosName with
  | false =>
    have hlast : q.lookingForDosName = false := by
      rcases hq with rfl | hq
      · exact hlooking
      · exact hq.2
    obtain ⟨hsame, htaken⟩ := hfor.single_name hlooking
    rw [if_neg (by simp [hlast]), htaken, ← hsame]
    exact hremoved.unlinked hs hmem
  | true =>
    obtain ⟨-, hdos, ⟨w, hw, hwin32⟩, htaken⟩ := hfor.dos_name hs hfn hlooking
    have hne : r.2 ≠ w := by
      rintro rfl
      rw [hdos] at hwin32
      cases hwin32
    have htwo := two_le_linkCount hs hmem hw hne
    have hmany : s.ni.linkCount ≠ 1 := by omega
    obtain rfl : q = r.1 := hq.resolve_right fun hone => hmany hone.1
    rw [if_pos hlooking]
    refine wp_then searchFileName_spec ?_
    rintro r' _ ⟨hfound', j, rfl⟩
    have hfirst := searchAgain_win32 hfound'
    have hnames :=
      hremoved.names.resolve_right fun hone => hmany hone.1
    have hmem' := firstOfType_mem hfirst
    have hlinks := hremoved.linkCount
    have hlt := hs.links_lt
    refine wp_then (removeName_spec rules dir hremoved.held
      (show 0 < s₁.ni.linkCount by omega) (show s₁.ni.linkCount < 65536 by omega) hmem') ?_
    rintro _ s₂ ⟨hremoved', -⟩
    replace hremoved' := hremoved'.of_later
    rw [hnames, firstOfType_erase (by simp [hdos])] at hfirst
    rw [htaken, hfirst]
    exact hremoved.unlinked_pair hremoved' hs hmem hmem' hmany

end

/-! ## Freeing the file -/

/-- Clusters and records are given back, and the names and links stay. -/
structure Released (s : DeleteState) (clusters records : List Nat) (s' : DeleteState) : Prop where
  index : IndexKept s s'
  names : s'.ni.names = s.ni.names
  linkCount : s'.ni.linkCount = s.ni.linkCount
  attributeList : s'.ni.attributeList = s.ni.attributeList
  listCleared : s'.listCleared = s.listCleared
  clusters : s'.clearedClusters = s.clearedClusters ++ clusters
  records : s'.clearedRecords = s.clearedRecords ++ records

section

lemma Released.trans (h₁ : Released s clusters₁ records₁ s₁)
    (h₂ : Released s₁ clusters₂ records₂ s₂) :
    Released s (clusters₁ ++ clusters₂) (records₁ ++ records₂) s₂ where
  index := h₁.index.trans h₂.index
  names := h₂.names.trans h₁.names
  linkCount := h₂.linkCount.trans h₁.linkCount
  attributeList := h₂.attributeList.trans h₁.attributeList
  listCleared := h₂.listCleared.trans h₁.listCleared
  clusters := by rw [h₂.clusters, h₁.clusters, append_assoc]
  records := by rw [h₂.records, h₁.records, append_assoc]

lemma Released.refl (s : DeleteState) : Released s [] [] s :=
  ⟨.refl s, rfl, rfl, rfl, rfl, (append_nil _).symm, (append_nil _).symm⟩

lemma Released.answered : Released s [] [] s.answered :=
  ⟨⟨rfl, rfl, rfl⟩, rfl, rfl, rfl, rfl, (append_nil _).symm, (append_nil _).symm⟩

/-- A request whose refusal is remembered. -/
lemma attempt_deleteRequest :
    wp (attempt deleteRequest) (fun _ s' => s' = s.answered) (fun _ _ => True) s := by
  rw [wp_attempt]
  exact wp_deleteRequest rfl rfl

lemma freeResidence_spec :
    wp (freeResidence err r)
      (fun err' s' => err' = false → err = false ∧ Released s r.clusters [] s')
      (fun _ _ => True) s := by
  cases r with
  | resident => exact fun herr => ⟨herr, .refl s⟩
  | nonResident runs =>
    cases runs with
    | none =>
      intro herr
      cases herr
    | some rl =>
      rw [freeResidence, wp_bind, wp_attempt]
      refine wp_mono freeFromRl_spec ?_ ?_
      · rintro _ _ ⟨k, rfl⟩ herr
        rw [or_eq_false_iff] at herr
        exact ⟨herr.1, ⟨rfl, rfl, rfl⟩, rfl, rfl, rfl, rfl, rfl, (append_nil _).symm⟩
      · intro _ _ _ herr
        rw [or_eq_false_iff] at herr
        cases herr.2

/-- The walk over the attributes: without a remembered error every cluster is given back. -/
lemma freeResidences_spec (rs : List Residence) (err : Bool) :
    wp (freeResidences rs err)
      (fun err' s' => err' = false → err = false ∧ Released s (rs.flatMap Residence.clusters) [] s')
      (fun _ _ => True) s := by
  induction rs generalizing s err with
  | nil => exact fun herr => ⟨herr, .refl s⟩
  | cons r rest ih =>
    refine wp_then freeResidence_spec ?_
    intro err₁ s₁ hfirst
    refine wp_mono (ih err₁) ?_ fun _ _ _ => trivial
    intro err₂ s₂ hrest herr
    obtain ⟨herr₁, hreleased⟩ := hrest herr
    obtain ⟨herr₀, hreleased₀⟩ := hfirst herr₁
    exact ⟨herr₀, hreleased₀.trans hreleased⟩

lemma freeRecords_spec (records : List Nat) (err : Bool) :
    wp (freeRecords records err)
      (fun err' s' => err' = false → err = false ∧ Released s [] records s')
      (fun _ _ => True) s := by
  induction records generalizing s err with
  | nil => exact fun herr => ⟨herr, .refl s⟩
  | cons mftNo rest ih =>
    rw [freeRecords, wp_bind, wp_attempt, releaseRecord, wp_bind]
    refine wp_deleteRequest ?_ ?_
    · rw [wp_modify]
      refine wp_mono (ih _) ?_ fun _ _ _ => trivial
      intro err' s' hrest herr
      obtain ⟨herr₁, hreleased⟩ := hrest herr
      rw [or_eq_false_iff] at herr₁
      refine ⟨herr₁.1, { hreleased.index with }, hreleased.names, hreleased.linkCount,
        hreleased.attributeList, hreleased.listCleared, hreleased.clusters, ?_⟩
      rw [hreleased.records]
      exact append_assoc s.clearedRecords [mftNo] rest
    · refine wp_mono (ih _) ?_ fun _ _ _ => trivial
      intro err' s' hrest herr
      have herr₁ := (hrest herr).1
      rw [or_eq_false_iff] at herr₁
      cases herr₁.2

/-- Without a remembered error every cluster and every record of the file is given back. -/
lemma releaseFile_spec :
    wp releaseFile
      (fun err s' => err = false → Released s (s.ni.listClusters ++ s.ni.otherClusters)
        (s.ni.extents.reverse ++ [s.ni.mftNo]) s')
      (fun _ _ => True) s := by
  refine wp_then attempt_deleteRequest ?_
  rintro reparse _ rfl
  refine wp_then attempt_deleteRequest ?_
  rintro objectId _ rfl
  rw [wp_bind]
  refine wp_then (freeResidences_spec _ _) ?_
  intro err s₁ hclusters
  refine wp_then attempt_deleteRequest ?_
  rintro walked _ rfl
  refine wp_mono (freeRecords_spec _ _) ?_ fun _ _ _ => trivial
  intro err' s₂ hrecords herr
  obtain ⟨herr₁, hlast⟩ := hrecords herr
  rw [or_eq_false_iff] at herr₁
  obtain ⟨-, hfirst⟩ := hclusters herr₁.1
  have hall := (Released.answered.trans (.answered)).trans
    ((hfirst.trans (.answered)).trans hlast)
  rw [LinkedFile.residences_clusters] at hall
  simp only [append_nil] at hall
  exact hall

end

/-! ## The whole call -/

section

variable {rules : NameRules} {dir : Nat} {name : Name} {s s' : DeleteState} {fn : FileName}

/-- What a call that succeeds does: the names are taken, their entries go from the index, and
a file without links gives back the clusters it has by then and all its records. -/
structure NamesDeleted (s : DeleteState) (dir : Nat) (removed : List FileName) (s' : DeleteState) :
    Prop extends NamesTaken s removed s' where
  index : ∃ es, es.map IndexedName.name = removed.map FileName.name ∧ es.Nodup ∧
    IndexErased s dir es s'
  kept : s'.ni.linkCount ≠ 0 → Tracked s s' ∧ s'.ni.Held
  freed : s'.ni.linkCount = 0 →
    s'.clearedClusters.Perm (s.clearedClusters ++
      (s'.listCleared ++ s'.ni.listClusters ++ s.ni.otherClusters)) ∧
    s'.clearedRecords.Perm (s.clearedRecords ++ (s.ni.extents ++ [s.ni.mftNo]))

lemma Unlinked.released (h : Unlinked s dir removed s₁) (htrace : s.listCleared = [])
    (hzero : s₁.ni.linkCount = 0)
    (hreleased : Released s₁ (s₁.ni.listClusters ++ s₁.ni.otherClusters)
      (s₁.ni.extents.reverse ++ [s₁.ni.mftNo]) s') : NamesDeleted s dir removed s' where
  linkCount := by rw [hreleased.linkCount, h.linkCount]
  names := by
    rw [hreleased.linkCount, hreleased.names]
    exact h.names
  index := by
    obtain ⟨es, hnames, hnodup, herased⟩ := h.index
    exact ⟨es, hnames, hnodup, herased.of_kept hreleased.index⟩
  kept hne := absurd (hreleased.linkCount.trans hzero) hne
  freed _ := by
    have htracked := h.tracked
    obtain ⟨cleared, hclusters, hlist⟩ := htracked.clusters
    rw [htrace, nil_append] at hlist
    have hothers : s₁.ni.otherClusters = s.ni.otherClusters := by
      rw [LinkedFile.otherClusters, htracked.others]
      rfl
    have hlistClusters : s'.ni.listClusters = s₁.ni.listClusters := by
      rw [LinkedFile.listClusters, hreleased.attributeList]
      rfl
    constructor
    · rw [hreleased.clusters, hclusters, hreleased.listCleared, hlist, hothers, hlistClusters]
      simp only [append_assoc]
      exact .refl _
    · rw [hreleased.records, htracked.mftNo, ← append_assoc, ← append_assoc]
      refine List.Perm.append_right _ (List.Perm.trans ?_ htracked.records)
      exact List.Perm.append_left _ (reverse_perm _)

lemma deleteFile_spec (hs : LinksWellFormed s) (h : s.ni.Held)
    (hnamed : s.ni.named rules dir name = some fn) :
    wp (deleteFile rules dir name)
      (fun err s' => err = false → NamesDeleted s dir (s.ni.takenNames fn) s')
      (fun _ _ => True) s := by
  rw [deleteFile]
  split
  · trivial
  refine wp_then (unlinkNames_spec hs h hnamed) ?_
  intro _ s₁ hunlinked
  rw [wp_bind, wp_reads]
  split
  case isTrue hzero =>
    refine wp_mono releaseFile_spec ?_ fun _ _ _ => trivial
    intro err s₂ hreleased herr
    exact hunlinked.released hs.trace.2.2 hzero (hreleased herr)
  case isFalse hlinks =>
    exact fun _ => ⟨hunlinked.toNamesTaken, hunlinked.index,
      fun _ => ⟨hunlinked.tracked, hunlinked.held⟩, fun hzero => absurd hzero hlinks⟩

variable {ni : LinkedFile}

lemma NamesDeleted.answered (h : NamesDeleted s dir removed s') :
    NamesDeleted s dir removed s'.answered := by
  obtain ⟨es, hnames, hnodup, herased⟩ := h.index
  refine { h with index := ⟨es, hnames, hnodup, { herased with }⟩, kept := fun hne => ?_ }
  have hkept := h.kept hne
  exact ⟨{ hkept.1 with }, hkept.2⟩

lemma closeFile_spec :
    wp (attempt (closeFile result)) (fun _ s' => s' = s ∨ s' = s.answered) (fun _ _ => True) s := by
  rw [wp_attempt]
  cases result with
  | error e => exact wp_deleteRequest (.inr rfl) (.inr rfl)
  | ok err =>
    rw [closeFile, wp_bind, wp_reads]
    split
    · exact .inl rfl
    · exact wp_deleteRequest (.inr rfl) (.inr rfl)

/-- Closing the inodes turns a remembered error into the result. -/
lemma closeInodes_spec (hdeleted : result = .ok false → NamesDeleted s dir removed s₁) :
    wp (closeInodes result) (fun _ s' => NamesDeleted s dir removed s') (fun _ _ => True) s₁ := by
  refine wp_then attempt_deleteRequest ?_
  rintro closedDir _ rfl
  refine wp_then closeFile_spec ?_
  intro closed s₂ hs₂
  rcases result with e | err
  · trivial
  · rw [deleteResult]
    split
    case isTrue => trivial
    case isFalse hno =>
      rw [not_eq_true, or_eq_false_iff] at hno
      have hlast := (hdeleted (congrArg Except.ok hno.1)).answered
      rcases hs₂ with rfl | rfl
      · exact hlast
      · exact hlast.answered

/-- A successful call deletes the names that it takes. -/
lemma ntfsDelete_taken (hs : LinksWellFormed s) (h : s.ni.Held)
    (hnamed : s.ni.named rules dir name = some fn)
    (hrun : ntfsDelete rules dir name s = (.ok (), s')) :
    NamesDeleted s dir (s.ni.takenNames fn) s' := by
  have hwp : wp (ntfsDelete rules dir name)
      (fun _ s' => NamesDeleted s dir (s.ni.takenNames fn) s') (fun _ _ => True) s := by
    rw [ntfsDelete, wp_bind, wp_attempt]
    refine wp_mono (deleteFile_spec hs h hnamed) ?_ ?_
    · intro err s₁ hdeleted
      exact closeInodes_spec fun hok => hdeleted (Except.ok.inj hok)
    · intro e s₁ _
      exact closeInodes_spec fun herr => by cases herr
  have hdeleted := wp_ok hwp hrun
  exact hdeleted

/-- The deletion is one of exactly these names if what is noted cancels out. -/
lemma NamesDeleted.linkDeleted_iff (h : NamesDeleted s dir removed s') (hs : LinksWellFormed s) :
    LinkDeleted s dir removed s' ↔ s'.missing.Perm s'.doubled ∧ ListSettled s s' := by
  obtain ⟨es, hnames, hnodup, herased⟩ := h.index
  have hentries := herased.entries_iff (hs.entries dir) hnodup hnames ⟨hs.trace.1, hs.trace.2.1⟩
  have hclusters : (s'.ni.linkCount ≠ 0 → Balanced s s' ∧ s'.ni.Held) ∧
      (s'.ni.linkCount = 0 →
        s'.clearedClusters.Perm (s.clearedClusters ++ (s.ni.listClusters ++ s.ni.otherClusters)) ∧
        s'.clearedRecords.Perm (s.clearedRecords ++ (s.ni.extents ++ [s.ni.mftNo]))) ↔
      ListSettled s s' := by
    by_cases hzero : s'.ni.linkCount = 0
    · obtain ⟨hcleared, hrecords⟩ := h.freed hzero
      have hperm : s'.clearedClusters.Perm
          (s.clearedClusters ++ (s.ni.listClusters ++ s.ni.otherClusters)) ↔ ListSettled s s' := by
        rw [hcleared.congr_left, perm_append_left_iff, perm_append_right_iff, ListSettled]
      rw [hperm]
      exact ⟨fun hboth => (hboth.2 hzero).1,
        fun hsettled => ⟨fun hne => absurd hzero hne, fun _ => ⟨hsettled, hrecords⟩⟩⟩
    · obtain ⟨htracked, hheld⟩ := h.kept hzero
      rw [htracked.balanced_iff hs.trace.2.2]
      exact ⟨fun hboth => (hboth.1 hzero).1,
        fun hsettled => ⟨fun _ => ⟨hsettled, hheld⟩, fun hlast => absurd hlast hzero⟩⟩
  constructor
  · intro hdeleted
    exact ⟨hentries.mp hdeleted.entries, hclusters.mp ⟨hdeleted.kept, hdeleted.freed⟩⟩
  · rintro ⟨hnoted, hsettled⟩
    obtain ⟨hkept, hfreed⟩ := hclusters.mpr hsettled
    exact ⟨h.toNamesTaken, hentries.mpr hnoted, herased.elsewhere, hkept, hfreed⟩

/-! ## The names of the directory -/

/-- The DOS and the WIN32 name that come first among the names of a file are names of the
directory of `fn`. Only for names in these namespaces something is asked. -/
def LinkedFile.TwinsFirst (ni : LinkedFile) (fn : FileName) : Prop :=
  match fn.nameType with
  | .win32 =>
    (∀ d, firstOfType .dos ni.names = some d → d.parent = fn.parent) ∧
      ∀ w, firstOfType .win32 ni.names = some w → w.parent = fn.parent
  | .dos => ∀ w, firstOfType .win32 ni.names = some w → w.parent = fn.parent
  | _ => True

lemma LinkedFile.twinsFirst_iff :
    ni.TwinsFirst fn ↔ ∀ n ∈ ni.takenNames fn, n.parent = fn.parent := by
  unfold TwinsFirst takenNames
  cases fn.nameType with
  | win32 =>
    simp only [mem_append, mem_toList]
    constructor
    · rintro ⟨hdos, hwin32⟩ n (hn | hn)
      · exact hdos n hn
      · exact hwin32 n hn
    · intro h
      exact ⟨fun d hd => h d (.inl hd), fun w hw => h w (.inr hw)⟩
  | dos => simp
  | posix => simp
  | win32AndDos => simp

lemma exists_firstOfType (hfn : fn ∈ names)
    (htype : fn.nameType = type) : ∃ n, firstOfType type names = some n := by
  rw [← isSome_iff_exists, firstOfType, find?_isSome]
  exact ⟨fn, hfn, beq_iff_eq.mpr htype⟩

lemma LinksWellFormed.filter_eq (hs : LinksWellFormed s) (hn : n ∈ s.ni.names)
    (htype : n.nameType = .dos ∨ n.nameType = .win32) :
    (s.ni.names.filter fun m => m.parent == n.parent && m.nameType == n.nameType) = [n] := by
  rw [← perm_singleton]
  refine (perm_ext_iff_of_nodup (hs.names.filter _) (nodup_singleton n)).mpr fun m => ?_
  simp only [mem_filter, and_eq_true, beq_iff_eq, mem_singleton]
  constructor
  · rintro ⟨hm, hparent, hsame⟩
    exact hs.single m hm n hn hsame (hsame ▸ htype) hparent
  · rintro rfl
    exact ⟨hn, rfl, rfl⟩

lemma LinksWellFormed.firstOfType_eq (hs : LinksWellFormed s) (hn : n ∈ s.ni.names)
    (htype : n.nameType = .win32)
    (hfirst : ∀ w, firstOfType .win32 s.ni.names = some w → w.parent = n.parent) :
    firstOfType .win32 s.ni.names = some n := by
  obtain ⟨w, hw⟩ := exists_firstOfType hn htype
  have hwin32 := firstOfType_type hw
  rw [hw, hs.single w (firstOfType_mem hw) n hn (hwin32.trans htype.symm) (.inr hwin32)
    (hfirst w hw)]

lemma LinksWellFormed.linkNames_perm (hs : LinksWellFormed s) (hfn : fn ∈ s.ni.names)
    (htwins : s.ni.TwinsFirst fn) : (s.ni.linkNames fn).Perm (s.ni.takenNames fn) := by
  unfold LinkedFile.TwinsFirst at htwins
  unfold LinkedFile.linkNames LinkedFile.takenNames
  cases htype : fn.nameType with
  | posix => rfl
  | win32AndDos => rfl
  | dos =>
    rw [htype] at htwins
    obtain ⟨w, hw, hwin32, hparent⟩ := hs.twin fn hfn htype
    have hfilter := hs.filter_eq hw (.inr hwin32)
    rw [hparent, hwin32] at hfilter
    have hfirst := hs.firstOfType_eq hw hwin32 (hparent.symm ▸ htwins)
    simp only [hfilter, hfirst]
    rfl
  | win32 =>
    rw [htype] at htwins
    have hfirst := hs.firstOfType_eq hfn htype htwins.2
    cases hdos : firstOfType .dos s.ni.names with
    | none =>
      have hnone : (s.ni.names.filter fun n => n.parent == fn.parent && n.nameType == .dos) =
          [] := by
        rw [filter_eq_nil_iff]
        intro n hn hmatch
        rw [and_eq_true] at hmatch
        obtain ⟨d, hd⟩ := exists_firstOfType hn (beq_iff_eq.mp hmatch.2)
        rw [hdos] at hd
        cases hd
      simp only [hnone, hfirst]
      rfl
    | some d =>
      have hfilter := hs.filter_eq (firstOfType_mem hdos) (.inl (firstOfType_type hdos))
      rw [htwins.1 d hdos, firstOfType_type hdos] at hfilter
      simp only [hfilter, hfirst]
      exact List.Perm.swap d fn []

lemma LinkedFile.mem_linkNames (hn : n ∈ ni.linkNames fn) :
    n = fn ∨ n ∈ ni.names ∧ n.parent = fn.parent := by
  unfold linkNames at hn
  cases htype : fn.nameType with
  | posix | win32AndDos =>
    rw [htype] at hn
    exact .inl (mem_singleton.mp hn)
  | dos | win32 =>
    simp only [htype, mem_cons, mem_filter, and_eq_true, beq_iff_eq] at hn
    exact hn.imp_right fun h => ⟨h.1, h.2.1⟩

lemma LinkedFile.linkNames_nodup (hnames : ni.names.Nodup) : (ni.linkNames fn).Nodup := by
  unfold linkNames
  cases htype : fn.nameType with
  | posix | win32AndDos => exact nodup_singleton fn
  | dos | win32 =>
    refine nodup_cons.mpr ⟨fun hmem => ?_, hnames.filter _⟩
    have hmatch := (mem_filter.mp hmem).2
    simp [htype] at hmatch

lemma LinkedFile.takenNames_subset (hfn : fn ∈ ni.names) : ni.takenNames fn ⊆ ni.names := by
  intro n hn
  unfold takenNames at hn
  cases htype : fn.nameType with
  | posix | win32AndDos =>
    rw [htype] at hn
    exact mem_singleton.mp hn ▸ hfn
  | dos | win32 =>
    simp only [htype, mem_cons, mem_append, mem_toList] at hn
    rcases hn with hn | hn
    · first
      | exact hn ▸ hfn
      | exact firstOfType_mem hn
    · exact firstOfType_mem hn

/-- Two lists of names are taken with one result: the second list has no name that the
first one has not. -/
lemma NamesTaken.subset (hs : LinksWellFormed s) (h : NamesTaken s removed s')
    (h' : NamesTaken s taken s') (hnodup : removed.Nodup) (hremoved : removed ⊆ s.ni.names)
    (htaken : taken ⊆ s.ni.names) : taken ⊆ removed := by
  intro n hn
  by_cases hzero : s'.ni.linkCount = 0
  · -- every name is removed
    have hlength : s.ni.names.length ≤ removed.length := by
      rw [← hs.linkCount, ← h.linkCount, hzero, zero_add]
    have hperm := (hnodup.subperm hremoved).perm_of_length_le hlength
    exact hperm.mem_iff.mpr (htaken hn)
  · have hnames := h.names.resolve_right fun hlast => hzero hlast.1
    have hnames' := h'.names.resolve_right fun hlast => hzero hlast.1
    by_contra hnot
    have hkept : n ∈ s'.ni.names := by
      rw [hnames]
      exact mem_filter.mpr ⟨htaken hn, decide_eq_true hnot⟩
    rw [hnames'] at hkept
    exact of_decide_eq_true (mem_filter.mp hkept).2 hn

lemma LinkDeleted.perm (h : LinkDeleted s dir removed s') (hperm : removed.Perm taken) :
    LinkDeleted s dir taken s' where
  entries := by
    simpa only [hperm.mem_iff] using h.entries
  elsewhere := h.elsewhere
  linkCount := hperm.length_eq ▸ h.linkCount
  names := by
    rcases h.names with hnames | ⟨hzero, n, hn, hlast⟩
    · left
      rw [hnames]
      simp only [hperm.mem_iff]
    · exact .inr ⟨hzero, n, hperm.mem_iff.mp hn, hlast⟩
  kept := h.kept
  freed := h.freed

end

/-! ## A file with names in two directories -/

def asciiRules : NameRules where
  upcase := (List.range 128).map fun c => if 97 ≤ c ∧ c ≤ 122 then (c - 32).toUInt16 else c.toUInt16
  caseSensitive := false

def winA : FileName := ⟨41, [97], .win32, none⟩

def dosA : FileName := ⟨41, [65, 126, 49], .dos, none⟩

def winB : FileName := ⟨40, [98], .win32, none⟩

def dosB : FileName := ⟨40, [66, 126, 49], .dos, none⟩

/-- File 50 is `b` (`B~1`) in directory 40 and `a` (`A~1`) in directory 41, which also has
another file `b` (`B~1`). -/
def twoDirectories (names : List FileName) : DeleteState where
  entries d :=
    if d = 40 then [⟨[98], 50, false⟩, ⟨[66, 126, 49], 50, false⟩]
    else if d = 41 then
      [⟨[97], 50, false⟩, ⟨[65, 126, 49], 50, false⟩, ⟨[98], 51, false⟩, ⟨[66, 126, 49], 51, false⟩]
    else []
  clearedClusters := []
  clearedRecords := []
  ni :=
    { mftNo := 50, linkCount := 4, isDirectory := false, emptyRoot := false,
      possibleSymlink := false, names := names, attributeList := none,
      others := [⟨none, .resident⟩], extents := [] }
  io := []
  damage := []
  doubled := []
  missing := []
  listCleared := []

def fourNames : List FileName := [winA, dosA, winB, dosB]

lemma fourNames_noZero : (fourNames.all fun fn => fn.name.all (· != 0)) = true := by decide

lemma fourNames_twin : ∀ fn ∈ fourNames, fn.nameType = .dos →
    ∃ w ∈ fourNames, w.nameType = .win32 ∧ w.parent = fn.parent := by decide

lemma fourNames_single : ∀ fn ∈ fourNames, ∀ n ∈ fourNames, fn.nameType = n.nameType →
    fn.nameType = .dos ∨ fn.nameType = .win32 → fn.parent = n.parent → fn = n := by decide

lemma twoDirectories_wellFormed (hnames : names.Perm fourNames) :
    LinksWellFormed (twoDirectories names) where
  entries d := by
    unfold twoDirectories
    dsimp only
    split_ifs
    · decide
    · decide
    · exact nodup_nil
  names := hnames.nodup_iff.mpr (by decide)
  linkCount := hnames.length_eq.symm
  links_lt := show (4 : Nat) < 65536 by decide
  noZero fn hfn c hc := by
    have hall := all_eq_true.mp fourNames_noZero fn (hnames.mem_iff.mp hfn)
    exact bne_iff_ne.mp (all_eq_true.mp hall c hc)
  twin fn hfn hdos := by
    obtain ⟨w, hw, htwin⟩ := fourNames_twin fn (hnames.mem_iff.mp hfn) hdos
    exact ⟨w, hnames.mem_iff.mpr hw, htwin⟩
  single fn hfn n hn := fourNames_single fn (hnames.mem_iff.mp hfn) n (hnames.mem_iff.mp hn)
  trace := ⟨rfl, rfl, rfl⟩

lemma twoDirectories_held (hnames : names.Perm fourNames) : (twoDirectories names).ni.Held where
  name_holder fn hfn x hx := by
    have hbase : ∀ n ∈ fourNames, n.holder = none := by decide
    rw [hbase fn (hnames.mem_iff.mp hfn)] at hx
    cases hx
  other_holder a ha x hx := by
    obtain rfl := mem_singleton.mp ha
    cases hx
  base := ⟨⟨none, .resident⟩, mem_singleton_self _, rfl⟩

end NtfsDxe
