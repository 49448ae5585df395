import Mathlib.Algebra.Order.Group.Multiset
import Mathlib.Data.Multiset.UnionInter
import Mathlib.Tactic.Abel
import NtfsDxe.Directory.DeleteSteps

/-! # Removing names

What the removal of one or two names does to a directory, to the file and to what it has given
back. A removal from an index may leave other entries twice or lose them without an error, and
an attribute list that is dropped on the way may lose its clusters. Both are noted, and the
removal is the one that was asked for exactly if nothing of this remains in the end.
-/

namespace NtfsDxe

open Foundation Prog List DeleteState

/-! ## Well-formed files -/

/-- The names of a file and the directories: no directory has two entries of one name, the
link count is the number of names, a name has no zero, in each directory the file has at most
one DOS and one WIN32 name, and a DOS name only with a WIN32 name. Nothing has been noted. -/
structure LinksWellFormed (s : DeleteState) : Prop where
  entries : ∀ d, ((s.entries d).map IndexedName.name).Nodup
  names : s.ni.names.Nodup
  linkCount : s.ni.linkCount = s.ni.names.length
  links_lt : s.ni.linkCount < 65536
  noZero : ∀ fn ∈ s.ni.names, ∀ c ∈ fn.name, c ≠ 0
  twin : ∀ fn ∈ s.ni.names, fn.nameType = .dos →
    ∃ w ∈ s.ni.names, w.nameType = .win32 ∧ w.parent = fn.parent
  single : ∀ fn ∈ s.ni.names, ∀ n ∈ s.ni.names, fn.nameType = n.nameType →
    fn.nameType = .dos ∨ fn.nameType = .win32 → fn.parent = n.parent → fn = n
  trace : s.doubled = [] ∧ s.missing = [] ∧ s.listCleared = []

/-- The attribute that has a name in a directory: the name itself, or the first one that is
equal up to the case. -/
def LinkedFile.named (ni : LinkedFile) (rules : NameRules) (dir : Nat) (name : Name) :
    Option FileName :=
  (ni.names.find? fun fn => fn.parent == dir && fn.name == name) <|>
    ni.names.find? (matchesName rules false dir name)

/-- The names of a link: one name, or a WIN32 name and the DOS name of the same directory. -/
def LinkedFile.linkNames (ni : LinkedFile) (fn : FileName) : List FileName :=
  match fn.nameType with
  | .win32 => fn :: ni.names.filter fun n => n.parent == fn.parent && n.nameType == .dos
  | .dos => fn :: ni.names.filter fun n => n.parent == fn.parent && n.nameType == .win32
  | _ => [fn]

/-- The names that `ntfs_delete` takes for the one that has been found. -/
def LinkedFile.takenNames (ni : LinkedFile) (fn : FileName) : List FileName :=
  match fn.nameType with
  | .win32 => (firstOfType .dos ni.names).toList ++ (firstOfType .win32 ni.names).toList
  | .dos => fn :: (firstOfType .win32 ni.names).toList
  | _ => [fn]

/-- The names leave the file, except that the last one may stay in a file without links, and
so many links are counted less. -/
structure NamesTaken (s : DeleteState) (removed : List FileName) (s' : DeleteState) : Prop where
  linkCount : s'.ni.linkCount + removed.length = s.ni.linkCount
  names : s'.ni.names = s.ni.names.filter (· ∉ removed) ∨
    s'.ni.linkCount = 0 ∧ ∃ fn ∈ removed, s'.ni.names = [fn]

/-- What has been given back and what the file has are together the same. -/
structure Balanced (s s' : DeleteState) : Prop where
  mftNo : s'.ni.mftNo = s.ni.mftNo
  others : s'.ni.others = s.ni.others
  clusters : (s'.clearedClusters ++ s'.ni.listClusters).Perm
    (s.clearedClusters ++ s.ni.listClusters)
  records : (s'.clearedRecords ++ s'.ni.extents).Perm (s.clearedRecords ++ s.ni.extents)

/-- The deletion of names: their entries leave the directory, and no other entry of any
directory changes. A file with links keeps its attributes with their clusters and the records
that hold them; a file without links has given back all its clusters and records. -/
structure LinkDeleted (s : DeleteState) (dir : Nat) (removed : List FileName) (s' : DeleteState) :
    Prop extends NamesTaken s removed s' where
  entries : (s'.entries dir).Perm
    ((s.entries dir).filter fun e => ∀ fn ∈ removed, e.name ≠ fn.name)
  elsewhere : ∀ d, d ≠ dir → s'.entries d = s.entries d
  kept : s'.ni.linkCount ≠ 0 → Balanced s s' ∧ s'.ni.Held
  freed : s'.ni.linkCount = 0 →
    s'.clearedClusters.Perm (s.clearedClusters ++ (s.ni.listClusters ++ s.ni.otherClusters)) ∧
    s'.clearedRecords.Perm (s.clearedRecords ++ (s.ni.extents ++ [s.ni.mftNo]))

/-- The clusters of the attribute list that have been given back before the file was freed, and
those it has then, are its clusters: it has gone with all of them or with none. -/
def ListSettled (s s' : DeleteState) : Prop :=
  (s'.listCleared ++ s'.ni.listClusters).Perm s.ni.listClusters

/-! ## The index -/

/-- Entries have been erased from the index of a directory: together with the entries that are
lost they were there before, apart from those that are there once more. -/
structure IndexErased (s : DeleteState) (dir : Nat) (erased : List IndexedName)
    (s' : DeleteState) : Prop where
  entries : ∃ doubled missing, s'.doubled = s.doubled ++ doubled ∧
    s'.missing = s.missing ++ missing ∧
    (erased ++ (s'.entries dir ++ missing)).Perm (s.entries dir ++ doubled)
  elsewhere : ∀ d, d ≠ dir → s'.entries d = s.entries d
  mem_before : ∀ e ∈ erased, e ∈ s.entries dir
  mem_after : ∀ e ∈ s'.entries dir, e ∈ s.entries dir

section

variable {s : DeleteState}

lemma IndexErased.trans (h₁ : IndexErased s dir es s₁) (h₂ : IndexErased s₁ dir es' s₂) :
    IndexErased s dir (es ++ es') s₂ where
  entries := by
    obtain ⟨d₁, m₁, hd₁, hm₁, hperm₁⟩ := h₁.entries
    obtain ⟨d₂, m₂, hd₂, hm₂, hperm₂⟩ := h₂.entries
    refine ⟨d₁ ++ d₂, m₁ ++ m₂, by rw [hd₂, hd₁, append_assoc], by rw [hm₂, hm₁, append_assoc], ?_⟩
    rw [← Multiset.coe_eq_coe] at hperm₁ hperm₂ ⊢
    simp only [← Multiset.coe_add] at hperm₁ hperm₂ ⊢
    calc (es : Multiset IndexedName) + es' + (s₂.entries dir + (m₁ + m₂))
        = es + m₁ + (es' + (s₂.entries dir + m₂)) := by abel
      _ = es + (s₁.entries dir + m₁) + d₂ := by rw [hperm₂]; abel
      _ = s.entries dir + (d₁ + d₂) := by rw [hperm₁]; abel
  elsewhere d hd := (h₂.elsewhere d hd).trans (h₁.elsewhere d hd)
  mem_before e he := by
    rcases mem_append.mp he with he | he
    · exact h₁.mem_before e he
    · exact h₁.mem_after e (h₂.mem_before e he)
  mem_after e he := h₁.mem_after e (h₂.mem_after e he)

lemma isKey_iff : isKey rules name e = true ↔ e.name = name := by
  rw [isKey, beq_iff_eq, namesFullCollate_eq_iff, eq_comm]

lemma perm_eraseP_of_find? {p : α → Bool} {l : List α} (hfind : l.find? p = some a) :
    (a :: l.eraseP p).Perm l := by
  induction l with
  | nil => cases hfind
  | cons b rest ih =>
    by_cases hb : p b = true
    · rw [find?_cons_of_pos hb] at hfind
      rw [eraseP_cons_of_pos hb, Option.some_inj.mp hfind]
    · rw [find?_cons_of_neg hb] at hfind
      rw [eraseP_cons_of_neg hb]
      exact (List.Perm.swap b a _).trans ((ih hfind).cons b)

/-- Erasing the entry that a lookup has found. -/
lemma eraseEntry_erased (hfind : (s.entries dir).find? (isKey rules name) = some e) :
    IndexErased s dir [e] (s.eraseEntry rules dir name) := by
  have hleft := perm_eraseP_of_find? hfind
  unfold eraseEntry
  generalize (s.entries dir).eraseP (isKey rules name) = left at hleft
  generalize s.damage.headD ⟨[], []⟩ = damage
  refine ⟨⟨_, _, rfl, rfl, ?_⟩, ?_, ?_, ?_⟩
  · dsimp only
    have hsplit : (left.diff damage.missing ++ left.bagInter damage.missing).Perm left := by
      rw [← Multiset.coe_eq_coe]
      exact Multiset.sub_add_inter (left : Multiset IndexedName) damage.missing
    have hdoubled := (hsplit.cons e).trans hleft
    rw [Function.update_self]
    refine List.Perm.trans ?_ (hdoubled.append_right _)
    rw [singleton_append, cons_append, append_assoc, append_assoc]
    exact (List.Perm.append_left _ perm_append_comm).cons e
  · intro d hd
    exact Function.update_of_ne hd _ _
  · intro e' he'
    rw [mem_singleton.mp he']
    exact mem_of_find?_eq_some hfind
  · intro e' he'
    dsimp only at he'
    rw [Function.update_self] at he'
    apply hleft.subset
    rcases mem_append.mp he' with he' | he'
    · exact mem_cons_of_mem e (diff_subset _ _ he')
    · exact mem_cons_of_mem e (of_decide_eq_true (mem_filter.mp he').2)

lemma eraseEntry_not_mem (hnodup : ((s.entries dir).map IndexedName.name).Nodup)
    (hfind : (s.entries dir).find? (isKey rules name) = some e) :
    e ∉ (s.eraseEntry rules dir name).entries dir := by
  have hleft := perm_eraseP_of_find? hfind
  have hnew := (nodup_cons.mp (hleft.nodup_iff.mpr hnodup.of_map)).1
  unfold eraseEntry
  dsimp only
  rw [Function.update_self]
  intro hmem
  rcases mem_append.mp hmem with hmem | hmem
  · exact hnew (diff_subset _ _ hmem)
  · exact hnew (of_decide_eq_true (mem_filter.mp hmem).2)

lemma filter_name_perm {entries es : List IndexedName} {removed : List FileName}
    (hnodup : (entries.map IndexedName.name).Nodup) (hes : es.Nodup)
    (hmem : ∀ e ∈ es, e ∈ entries)
    (hnames : es.map IndexedName.name = removed.map FileName.name) :
    (es ++ entries.filter fun e => ∀ fn ∈ removed, e.name ≠ fn.name).Perm entries := by
  have hgone : (entries.filter fun e => !decide (∀ fn ∈ removed, e.name ≠ fn.name)).Perm es := by
    refine (perm_ext_iff_of_nodup (hnodup.of_map.filter _) hes).mpr fun e => ?_
    have hname : e.name ∈ removed.map FileName.name ↔ ∃ fn ∈ removed, e.name = fn.name := by
      simp only [mem_map, eq_comm]
    simp only [mem_filter, Bool.not_eq_true', decide_eq_false_iff_not, not_forall, not_not,
      exists_prop]
    rw [← hname, ← hnames, mem_map]
    constructor
    · rintro ⟨he, e', he', hsame⟩
      rwa [← inj_on_of_nodup_map hnodup (hmem e' he') he hsame]
    · intro he
      exact ⟨hmem e he, e, he, rfl⟩
  exact (hgone.symm.append_right _).trans (perm_append_comm.trans (filter_append_perm _ entries))

/-- In a directory without two entries of one name, erasing entries and keeping the ones of other
names is the same up to the entries that are noted. -/
lemma IndexErased.entries_iff {removed : List FileName} (h : IndexErased s dir es s')
    (hnodup : ((s.entries dir).map IndexedName.name).Nodup) (hes : es.Nodup)
    (hnames : es.map IndexedName.name = removed.map FileName.name)
    (htrace : s.doubled = [] ∧ s.missing = []) :
    (s'.entries dir).Perm ((s.entries dir).filter fun e => ∀ fn ∈ removed, e.name ≠ fn.name) ↔
      s'.missing.Perm s'.doubled := by
  obtain ⟨doubled, missing, hdoubled, hmissing, hperm⟩ := h.entries
  rw [htrace.1, nil_append] at hdoubled
  rw [htrace.2, nil_append] at hmissing
  rw [hdoubled, hmissing]
  have hsplit := filter_name_perm hnodup hes h.mem_before hnames
  generalize (s.entries dir).filter (fun e => ∀ fn ∈ removed, e.name ≠ fn.name) = kept at hsplit ⊢
  have hall : (s'.entries dir ++ missing).Perm (kept ++ doubled) := by
    have hsum := hperm.trans (hsplit.symm.append_right doubled)
    rwa [append_assoc, perm_append_left_iff] at hsum
  constructor
  · intro hentries
    exact (perm_append_left_iff kept).mp ((hentries.symm.append_right missing).trans hall)
  · intro hnoted
    exact (perm_append_right_iff missing).mp (hall.trans (hnoted.symm.append_left kept))

/-! ## One name -/

structure NameRemoved (s : DeleteState) (dir : Nat) (fn : FileName) (s' : DeleteState) : Prop where
  index : ∃ e, e.name = fn.name ∧ IndexErased s dir [e] s' ∧
    (((s.entries dir).map IndexedName.name).Nodup → e ∉ s'.entries dir)
  linkCount : s'.ni.linkCount + 1 = s.ni.linkCount
  names : s'.ni.names = s.ni.names.erase fn ∨ s.ni.linkCount = 1 ∧ s'.ni.names = s.ni.names
  tracked : Tracked s s'
  held : s'.ni.Held

def DeleteState.later (s : DeleteState) (k : Nat) : DeleteState := { s with io := s.io.drop k }

lemma DeleteState.later_answered : (s.later k).answered = s.later (k + 1) := by
  simp only [later, answered, ← drop_one, drop_drop]

lemma DeleteState.answered_eq : s.answered = s.later 1 := by
  rw [later, drop_one]
  rfl

lemma checkUnlinkableDir_spec :
    wp (checkUnlinkableDir fn) (fun _ s' => ∃ k, s' = s.later k) (fun _ _ => True) s := by
  rw [checkUnlinkableDir, wp_bind, wp_reads]
  split
  · rw [wp_bind]
    refine wp_deleteRequest ?_ trivial
    split
    · trivial
    · exact ⟨1, s.answered_eq⟩
  · exact ⟨0, rfl⟩

lemma indexRemove_spec (rules : NameRules) (dir : Nat) (fn : FileName) :
    wp (indexRemove rules dir fn)
      (fun _ s' => ∃ k e, (s.entries dir).find? (isKey rules fn.name) = some e ∧
        s' = (s.later k).eraseEntry rules dir fn.name)
      (fun _ _ => True) s := by
  rw [indexRemove, wp_bind]
  refine wp_deleteRequest ?_ trivial
  rw [wp_bind, wp_reads]
  cases hfind : (s.answered.entries dir).find? (isKey rules fn.name) with
  | none => trivial
  | some e =>
    rw [removeEntry, wp_bind, wp_reads]
    split
    · trivial
    · rw [wp_bind]
      refine wp_deleteRequest ?_ trivial
      rw [s.answered_eq, later_answered]
      exact ⟨2, e, hfind, rfl⟩

lemma lessLinks_add_one (hpos : 0 < n) (hlt : n < 65536) : lessLinks n + 1 = n := by
  unfold lessLinks
  omega

lemma IndexKept.setFile (h : IndexKept s s') (ni : LinkedFile) : IndexKept s (s'.setFile ni) :=
  ⟨h.entries, h.doubled, h.missing⟩

lemma Tracked.setLinks (h : Tracked s s') (n : Nat) :
    Tracked s (s'.setFile { s'.ni with linkCount := n }) :=
  { h with }

lemma LinkedFile.Held.setLinks {ni : LinkedFile} (h : ni.Held) (n : Nat) :
    { ni with linkCount := n }.Held :=
  { h with }

/-- The attribute goes unless it is the last one. -/
lemma dropName_spec (h : s.ni.Held) (hpos : 0 < s.ni.linkCount) (hlt : s.ni.linkCount < 65536)
    (hfn : found.2 ∈ s.ni.names) :
    wp (dropName found)
      (fun q s' => s'.ni.linkCount + 1 = s.ni.linkCount ∧
        (s'.ni.names = s.ni.names.erase found.2 ∨ s.ni.linkCount = 1 ∧ s'.ni.names = s.ni.names) ∧
        IndexKept s s' ∧ Tracked s s' ∧ s'.ni.Held ∧
        (q = found.1 ∨ s.ni.linkCount = 1 ∧ q.lookingForDosName = false))
      (fun _ _ => True) s := by
  have hcount := lessLinks_add_one hpos hlt
  rw [dropName, wp_bind, wp_reads]
  split
  case isTrue hlast =>
    refine ⟨hcount, .inr ⟨hlast.1, ?_⟩, (IndexKept.refl s).setFile _,
      (Tracked.refl s).setLinks (lessLinks s.ni.linkCount), h.setLinks (lessLinks s.ni.linkCount),
      .inr ⟨hlast.1, rfl⟩⟩
    rw [setFile_ni]
  case isFalse =>
    refine wp_then (fileNameRecordRm_kept h hfn) ?_
    intro _ s' hs'
    refine ⟨?_, .inl ?_, hs'.index.setFile _,
      hs'.tracked.setLinks (lessLinks s'.ni.linkCount),
      hs'.held.setLinks (lessLinks s'.ni.linkCount), .inl rfl⟩
    · rw [setFile_ni, hs'.linkCount]
      exact hcount
    · rw [setFile_ni]
      exact hs'.names

lemma IndexErased.of_kept (h : IndexErased s dir es s₁) (hkept : IndexKept s₁ s₂) :
    IndexErased s dir es s₂ where
  entries := by
    rw [hkept.entries, hkept.doubled, hkept.missing]
    exact h.entries
  elsewhere d hd := by rw [hkept.entries, h.elsewhere d hd]
  mem_before := h.mem_before
  mem_after := by
    rw [hkept.entries]
    exact h.mem_after

lemma removeName_spec (rules : NameRules) (dir : Nat) (h : s.ni.Held)
    (hpos : 0 < s.ni.linkCount) (hlt : s.ni.linkCount < 65536) (hfn : found.2 ∈ s.ni.names) :
    wp (removeName rules dir found)
      (fun q s' => NameRemoved s dir found.2 s' ∧
        (q = found.1 ∨ s.ni.linkCount = 1 ∧ q.lookingForDosName = false))
      (fun _ _ => True) s := by
  refine wp_then checkUnlinkableDir_spec ?_
  rintro _ _ ⟨k, rfl⟩
  refine wp_then (indexRemove_spec rules dir found.2) ?_
  rintro _ _ ⟨j, e, hfind, rfl⟩
  refine wp_mono (dropName_spec h hpos hlt hfn) ?_ fun _ _ _ => trivial
  rintro q s' ⟨hcount, hnames, hindex, htracked, hheld, hq⟩
  have herased : IndexErased s dir [e] s' := by
    refine (IndexErased.of_kept (s := s) ?_ hindex)
    exact { eraseEntry_erased (s := (s.later k).later j) hfind with }
  refine ⟨⟨⟨e, isKey_iff.mp (find?_some hfind), herased, fun hnodup => ?_⟩, hcount, hnames, ?_,
    hheld⟩, hq⟩
  · rw [hindex.entries]
    exact eraseEntry_not_mem (s := (s.later k).later j) hnodup hfind
  · exact { htracked with }

lemma Tracked.balanced_iff (h : Tracked s s') (htrace : s.listCleared = []) :
    Balanced s s' ↔ ListSettled s s' := by
  obtain ⟨cleared, hclusters, hlist⟩ := h.clusters
  rw [htrace, nil_append] at hlist
  have hperm : (s'.clearedClusters ++ s'.ni.listClusters).Perm
      (s.clearedClusters ++ s.ni.listClusters) ↔ ListSettled s s' := by
    rw [ListSettled, hclusters, hlist, append_assoc, perm_append_left_iff]
  constructor
  · intro hbalanced
    exact hperm.mp hbalanced.clusters
  · intro hsettled
    exact ⟨h.mftNo, h.others, hperm.mpr hsettled, h.records⟩

/-! ## One or two names -/

/-- What the removal of names does before the file is freed. -/
structure Unlinked (s : DeleteState) (dir : Nat) (removed : List FileName) (s' : DeleteState) :
    Prop extends NamesTaken s removed s' where
  index : ∃ es, es.map IndexedName.name = removed.map FileName.name ∧ es.Nodup ∧
    IndexErased s dir es s'
  tracked : Tracked s s'
  held : s'.ni.Held

lemma eq_singleton (hfn : fn ∈ names) (hlength : names.length = 1) : names = [fn] := by
  obtain ⟨n, rfl⟩ := length_eq_one_iff.mp hlength
  rw [mem_singleton.mp hfn]

lemma NameRemoved.unlinked (h : NameRemoved s dir fn s') (hs : LinksWellFormed s)
    (hfn : fn ∈ s.ni.names) : Unlinked s dir [fn] s' where
  index := by
    obtain ⟨e, hname, herased, -⟩ := h.index
    exact ⟨[e], by rw [map_singleton, map_singleton, hname], nodup_singleton e, herased⟩
  linkCount := h.linkCount
  names := by
    rcases h.names with hnames | ⟨hone, hnames⟩
    · left
      rw [hnames, hs.names.erase_eq_filter]
      refine filter_congr fun n _ => ?_
      by_cases hn : n = fn
      · simp [hn]
      · simp [hn]
    · right
      have hzero : s'.ni.linkCount = 0 := by
        have := h.linkCount
        omega
      refine ⟨hzero, fn, mem_singleton_self fn, ?_⟩
      rw [hnames]
      exact eq_singleton hfn (hs.linkCount ▸ hone)
  tracked := h.tracked
  held := h.held

/-- Two names, of which the first one is not the last of the file. -/
lemma NameRemoved.unlinked_pair (h : NameRemoved s dir fn s₁) (h' : NameRemoved s₁ dir fn' s')
    (hs : LinksWellFormed s)
    (hfn : fn ∈ s.ni.names) (hfn' : fn' ∈ s₁.ni.names) (hmany : s.ni.linkCount ≠ 1) :
    Unlinked s dir [fn, fn'] s' := by
  have hfirst := h.names.resolve_right fun hone => hmany hone.1
  refine ⟨⟨?_, ?_⟩, ?_, h.tracked.trans h'.tracked, h'.held⟩
  · rw [← h.linkCount, ← h'.linkCount]
    rfl
  · rcases h'.names with hnames | ⟨hone, hnames⟩
    · left
      rw [hnames, hfirst, (hs.names.erase fn).erase_eq_filter, hs.names.erase_eq_filter,
        filter_filter]
      refine filter_congr fun n _ => ?_
      by_cases hn : n = fn
      · simp [hn]
      · by_cases hn' : n = fn'
        · simp [hn']
        · simp [hn, hn']
    · right
      have hzero : s'.ni.linkCount = 0 := by
        have := h'.linkCount
        omega
      refine ⟨hzero, fn', by simp, ?_⟩
      have hlength : s₁.ni.names.length = 1 := by
        rw [hfirst, length_erase_of_mem hfn, ← hs.linkCount, ← h.linkCount, hone]
      rw [hnames]
      exact eq_singleton hfn' hlength
  · obtain ⟨e, hname, herased, hnot⟩ := h.index
    obtain ⟨e', hname', herased', -⟩ := h'.index
    refine ⟨[e, e'], by simp [hname, hname'], ?_, herased.trans herased'⟩
    have hne : e ≠ e' := by
      rintro rfl
      exact hnot (hs.entries dir) (herased'.mem_before e (mem_singleton_self e))
    simpa using hne

end

end NtfsDxe
