import NtfsDxe.Path.Symlink

/-! # Where a link leads to

The path that is made for a junction or an absolute link is the path of the link itself,
because nothing is ever appended to it. The path that is made for a relative link is
separated by slashes, which are no separators when it is walked, and it is walked from the
current directory.
-/

namespace NtfsDxe

open Foundation List LinkVolume Option

/-! ## What a link stands for -/

/-- The target of a link, without the prefix for the drive or the volume. -/
inductive StoredTarget
  | absolute (path : List UInt16)
  | relative (path : List UInt16)

def storedTarget (name : List UInt16) : StoredTarget :=
  if name.take 4 = charsOf "\\??\\" ∨ name.take 4 = charsOf "\\\\?\\" then
    if (name.drop 4).take 7 = charsOf "Volume\x7b" then
      .absolute (name.dropWhile (· != 0x7D)).tail
    else .absolute (name.drop 6)
  else if name.getD 1 0 = colon then .absolute (name.drop 2)
  else if name.getD 0 0 = nameSep then .absolute name
  else .relative name

def nameComponents (path : List UInt16) : List (List UInt16) :=
  (path.splitOn nameSep).filter (· != [])

namespace LinkVolume

/-- The inode that is reached from a directory, where names agree up to case. -/
def walkNames (v : LinkVolume) : Nat → List (List UInt16) → Option Nat
  | dir, [] => some dir
  | dir, name :: names =>
    if name = [dot] then v.walkNames dir names
    else if name = [dot, dot] then (v.parent dir).bind fun dir => v.walkNames dir names
    else (v.fixFileName dir name).bind fun entry => v.walkNames entry.1 names

/-- The inode that a link stands for. A colon in a relative path would start the name of a
stream. -/
def linkTarget (v : LinkVolume) (ni : Nat) (i : LinkInode) : Option Nat :=
  match storedTarget i.target with
  | .absolute path => v.walkNames rootRecord (nameComponents path)
  | .relative path =>
    if colon ∈ path then none
    else (v.parent ni).bind fun dir => v.walkNames dir (nameComponents path)

/-- `ntfsOpenEntry` returns this inode. -/
def Opens (v : LinkVolume) (path : List UInt8) (n : Nat) : Prop :=
  ∃ fuel links, v.openEntry fuel path = some (some n, links)

variable {v : LinkVolume}

variable {n count : Nat}

lemma parseEntry_done (h : v.parseRound level path = .done entry) :
    v.parseEntry (fuel + 1) level path = some (entry, 0) := by
  rw [parseEntry, h]

lemma parseEntry_link (h : v.parseRound level path = .link target) :
    v.parseEntry (fuel + 1) level path =
      (v.parseEntry fuel level target).map fun r => (r.1, r.2 + 1) := by
  rw [parseEntry, h]

/-- A path whose target is the path itself is never opened. -/
lemma openEntry_of_self (h : v.parseRound 1 path = .link path) : v.openEntry fuel path = none := by
  induction fuel with
  | zero => rfl
  | succ fuel ih =>
    rw [openEntry] at ih ⊢
    rw [parseEntry_link h, ih]
    rfl

/-! ## Absolute targets -/

lemma cstr_foundTarget : cstr (foundTarget mntPoint target) = cstr mntPoint := by
  rw [foundTarget, cstr_strcat, cstr_strcat]
  apply cstr_strcpy_replicate
  omega

lemma cstr_mappedTarget : cstr (mappedTarget mntPoint target) = cstr mntPoint := by
  rw [mappedTarget, cstr_strcat, cstr_strcat, cstr_strcat]
  apply cstr_strcpy_replicate
  omega

lemma cstr_of_mapTarget (h : v.mapTarget mntPoint junction = some target) :
    cstr target = cstr mntPoint := by
  rw [mapTarget] at h
  cases hconv : v.ucstombs junction with
  | none =>
    rw [hconv] at h
    cases h
  | some name =>
    rw [hconv] at h
    dsimp only at h
    split_ifs at h
    cases h
    exact cstr_mappedTarget

/-- Whether the target of a junction is found or not, the path is that of the junction. -/
lemma cstr_of_getFulllink (h : v.getFulllink junction count mntPoint isdir = some target) :
    cstr target = cstr mntPoint := by
  rw [getFulllink] at h
  split_ifs at h
  · split at h
    · cases h
      exact cstr_foundTarget
    · exact cstr_of_mapTarget h
  · exact cstr_of_mapTarget h
  · exact cstr_of_mapTarget h

lemma cstr_of_getAbslink (h : v.getAbslink junction count mntPoint isdir = some target) :
    cstr target = cstr mntPoint := by
  rw [getAbslink] at h
  split_ifs at h
  · split at h
    · cases h
      exact cstr_foundTarget
    · exact cstr_of_mapTarget h
  · exact cstr_of_mapTarget h
  · obtain ⟨found, -, rfl⟩ := map_eq_some_iff.mp h
    exact cstr_foundTarget

end LinkVolume

def LinkInode.isRelative (i : LinkInode) : Bool :=
  !i.isMountPoint && i.isSymlink && targetKind i.junction == .rel

namespace LinkVolume

variable {v : LinkVolume}

/-- A link that is not relative is replaced by itself. -/
lemma cstr_of_makeSymlink (hkind : i.isRelative = false)
    (h : v.makeSymlink ni i mntPoint = some target) : cstr target = cstr mntPoint := by
  rw [makeSymlink] at h
  split_ifs at h with hvalid hmount hsym
  · exact cstr_of_getFulllink h
  · rw [symlinkTarget] at h
    cases hk : targetKind i.junction with
    | full =>
      rw [hk] at h
      split_ifs at h
      exact cstr_of_getFulllink h
    | abs =>
      rw [hk] at h
      split_ifs at h
      exact cstr_of_getAbslink h
    | rel => simp [LinkInode.isRelative, hmount, hsym, hk] at hkind

end LinkVolume

/-! ## Paths -/

variable {α : Type*}

lemma realPath_colon (h : realPath path = some p) : 0x3A ∉ p := by
  rw [realPath] at h
  split_ifs at h <;> cases h <;> assumption

lemma realPath_subset (h : realPath path = some p) : p ⊆ path := by
  rw [realPath] at h
  split_ifs at h <;> cases h
  · exact fun c hc => (dropWhile_sublist _).subset (mem_of_mem_tail hc)
  · exact fun c hc => hc

lemma realPath_of_not_mem (h : 0x3A ∉ path) : realPath path = some path := by
  simp only [realPath, if_neg h]

/-- A path that `ntfsParseEntry` looks for. -/
lemma entryPath_spec (h : entryPath path = some p) : 0x3A ∉ p ∧ 0 ∉ p ∧ p ≠ [] := by
  obtain ⟨q, hreal, rfl⟩ := map_eq_some_iff.mp h
  by_cases hq : q = []
  · rw [if_pos hq]
    decide
  · rw [if_neg hq]
    exact ⟨realPath_colon hreal, fun h0 => not_mem_cstr (realPath_subset hreal h0), hq⟩

lemma entryPath_of (hcolon : 0x3A ∉ p) (hzero : 0 ∉ p) (hne : p ≠ []) : entryPath p = some p := by
  rw [entryPath, cstr_of_not_mem hzero, realPath_of_not_mem hcolon]
  simp only [map_some, if_neg hne]

lemma entryPath_self (h : entryPath path = some p) : entryPath p = some p := by
  obtain ⟨hcolon, hzero, hne⟩ := entryPath_spec h
  exact entryPath_of hcolon hzero hne

lemma cstr_mountPointPath (h : entryPath path = some p) :
    cstr (mountPointPath p) = mountPointPath p := by
  apply cstr_of_not_mem
  rw [mountPointPath]
  obtain ⟨-, hzero, -⟩ := entryPath_spec h
  split_ifs
  · exact hzero
  · exact fun hmem => hzero (mem_of_mem_tail hmem)

/-- The end of the walk when the first name is not found. -/
lemma LinkVolume.walk_eq_none {v : LinkVolume} (hne : token ++ path.takeWhile (· != pathSep) ≠ [])
    (h : v.enter dir (token ++ path.takeWhile (· != pathSep)) = none) :
    v.walk dir token path = none := by
  induction path generalizing token with
  | nil =>
    rw [takeWhile_nil, append_nil] at h hne
    rw [walk, if_neg hne, h]
  | cons c path ih =>
    by_cases hc : c = pathSep
    · have hstop : ¬ (c != pathSep) = true := by simp [hc]
      rw [takeWhile_cons, if_neg hstop, append_nil] at h hne
      rw [walk, if_pos hc, if_neg hne, h]
    · have hgo : (c != pathSep) = true := by simp [hc]
      rw [takeWhile_cons, if_pos hgo] at h hne
      rw [walk, if_neg hc]
      apply ih
      · simp
      · rw [append_assoc]
        exact h

/-- An element is taken if the elements before it and itself are. -/
lemma mem_takeWhile_of_getElem? {p : α → Bool} {l : List α} {k : Nat} (hc : l[k]? = some c)
    (hpc : p c = true) (hbefore : ∀ j < k, ∀ d, l[j]? = some d → p d = true) :
    c ∈ l.takeWhile p := by
  induction l generalizing k with
  | nil => cases hc
  | cons a l ih =>
    cases k with
    | zero =>
      cases hc
      rw [takeWhile_cons, if_pos hpc]
      exact mem_cons_self ..
    | succ k =>
      have ha : p a = true := hbefore 0 (Nat.zero_lt_succ k) a rfl
      rw [takeWhile_cons, if_pos ha]
      apply mem_cons_of_mem
      apply ih hc
      intro j hj d hd
      exact hbefore (j + 1) (Nat.succ_lt_succ hj) d hd

lemma takeWhile_and (p q : α → Bool) (l : List α) :
    (l.takeWhile p).takeWhile q = l.takeWhile fun c => p c && q c := by
  induction l with
  | nil => rfl
  | cons a l ih => cases hp : p a <;> cases hq : q a <;> simp [hp, hq, ih]

namespace LinkVolume

variable {v : LinkVolume}

/-! ## Relative targets -/

/-- A path that is as long as it should be and has no colon. -/
structure CleanPath (count : Nat) (path : List UInt16) : Prop where
  length : count ≤ path.length
  no_colon : ∀ j < count, path[j]? ≠ some colon

/-- There is a slash before a position, and no separator and no zero stands before it. -/
def MarkedPath (pos : Nat) (path : List UInt16) : Prop :=
  ∃ k < pos, path[k]? = some slash ∧ ∀ j < k, ∀ c, path[j]? = some c → c ≠ nameSep ∧ c ≠ 0

variable {j count pos curni rounds dir : Nat}

section

variable {path : List UInt16}

lemma getElem?_set_slash (h : (path.set m slash)[j]? = some c) : c = slash ∨ path[j]? = some c := by
  rw [getElem?_set] at h
  split_ifs at h
  · cases h
    exact .inl rfl
  · exact .inr h

lemma CleanPath.set (h : CleanPath count path) (m : Nat) : CleanPath count (path.set m slash) where
  length := by
    rw [length_set]
    exact h.length
  no_colon j hj hcolon := by
    rcases getElem?_set_slash hcolon with heq | hold
    · cases heq
    · exact h.no_colon j hj hold

lemma CleanPath.splice (h : CleanPath count path) (hfit : i + name.length ≤ path.length)
    (hname : colon ∉ name) : CleanPath count (splice path i name) where
  length := by
    rw [splice_length hfit]
    exact h.length
  no_colon j hj hcolon := by
    rw [splice_getElem? hfit] at hcolon
    split_ifs at hcolon
    · exact hname (mem_of_getElem? hcolon)
    · exact h.no_colon j hj hcolon

section

variable (h : MarkedPath pos path)
include h

lemma MarkedPath.mono (hle : pos ≤ pos') : MarkedPath pos' path := by
  obtain ⟨k, hk, hmark⟩ := h
  exact ⟨k, lt_of_lt_of_le hk hle, hmark⟩

lemma MarkedPath.set (m : Nat) : MarkedPath pos (path.set m slash) := by
  obtain ⟨k, hk, hslash, hbefore⟩ := h
  refine ⟨k, hk, ?_, ?_⟩
  · have hlen : k < path.length := (List.getElem?_eq_some_iff.mp hslash).1
    by_cases heq : m = k
    · rw [heq, List.getElem?_set_self hlen]
    · rw [getElem?_set_ne heq]
      exact hslash
  · intro j hj c hc
    rcases getElem?_set_slash hc with rfl | hold
    · decide
    · exact hbefore j hj c hold

/-- What is rewritten behind the position does not matter. -/
lemma MarkedPath.splice (hfit : pos + name.length ≤ path.length) :
    MarkedPath pos (splice path pos name) := by
  obtain ⟨k, hk, hslash, hbefore⟩ := h
  have hsame : ∀ j < pos, (Foundation.splice path pos name)[j]? = path[j]? := by
    intro j hj
    rw [splice_getElem? hfit, if_neg (by omega)]
  refine ⟨k, hk, ?_, ?_⟩
  · rw [hsame k hk]
    exact hslash
  · intro j hj c hc
    rw [hsame j (lt_trans hj hk)] at hc
    exact hbefore j hj c hc

end

lemma componentLength_le_sub (path : List UInt16) (count pos : Nat) :
    componentLength path count pos ≤ count - pos := by
  have htake := (takeWhile_sublist (fun c : UInt16 => c != nameSep)
    (l := (path.take count).drop pos)).length_le
  rw [length_drop, length_take] at htake
  rw [componentLength]
  omega

lemma componentLength_le {count pos : Nat} (hpos : pos ≤ count) :
    pos + componentLength path count pos ≤ count := by
  have hle := componentLength_le_sub path count pos
  omega

section

variable (path : List UInt16) (count pos : Nat)

lemma component_eq :
    component path count pos = ((path.take count).drop pos).takeWhile (· != nameSep) := by
  have hhead := prefix_iff_eq_take.mp
    ( takeWhile_prefix (fun c : UInt16 => c != nameSep) (l := (path.take count).drop pos))
  rw [hhead, ← componentLength, drop_take, take_take,
    min_eq_left (componentLength_le_sub path count pos), component]

lemma component_length : (component path count pos).length = componentLength path count pos := by
  rw [component_eq, componentLength]

lemma component_nameSep : nameSep ∉ component path count pos := by
  rw [component_eq]
  intro hmem
  have hne := mem_takeWhile_imp hmem
  simp at hne

end

lemma CleanPath.colon_not_mem (h : CleanPath count path) : colon ∉ path.take count := by
  intro hmem
  obtain ⟨j, hj⟩ := mem_iff_getElem?.mp hmem
  rw [getElem?_take] at hj
  split_ifs at hj with hlt
  exact h.no_colon j hlt hj

lemma component_colon (h : CleanPath count path) : colon ∉ component path count pos := by
  rw [component_eq]
  intro hmem
  exact h.colon_not_mem (mem_of_mem_drop ((takeWhile_sublist _).subset hmem))

lemma fixed_component (hclean : CleanPath count path) (hpos : pos ≤ count)
    (hfix : v.fixFileName curni (component path count pos) = some (inum, name)) :
    name.length = componentLength path count pos ∧ pos + name.length ≤ path.length ∧
      nameSep ∉ name ∧ colon ∉ name ∧ 0 ∉ name := by
  have hlen := v.fixFileName_length hfix
  rw [component_length] at hlen
  refine ⟨hlen, ?_, ?_, ?_, v.fixFileName_zero hfix⟩
  · rw [hlen]
    exact le_trans (componentLength_le hpos) hclean.length
  · exact v.fixFileName_ascii hfix (.inl rfl) (component_nameSep path count pos)
  · exact v.fixFileName_ascii hfix (.inr rfl) (component_colon hclean)

structure Translated (count : Nat) (s : Search) : Prop where
  clean : CleanPath count s.path
  pos_le : s.pos ≤ count
  marked : s.ok = true → MarkedPath s.pos s.path

/-- Before a round: a separator has been translated, or the first one is ahead. -/
def Begun (count : Nat) (s : Search) : Prop :=
  MarkedPath s.pos s.path ∨ s.pos = 0 ∧ componentLength s.path count 0 < count

lemma translated_failed (hclean : CleanPath count s.path) (hpos : s.pos ≤ count)
    (hfail : s.ok = false) : Translated count s :=
  ⟨hclean, hpos, fun hok => absurd hok (by rw [hfail]; decide)⟩

lemma eq_of_getD (hget : path.getD j 0 = d) (hc : path[j]? = some c) : c = d := by
  rw [getD_eq_getElem?_getD, hc] at hget
  exact hget

/-- The round at a component `.`. -/
lemma translated_dot (hclean : CleanPath count s.path) (hbegun : Begun count s)
    (hdot : s.atDot count = true) :
    Translated count { s with path := s.path.set 1 slash, pos := s.pos + 2 } := by
  simp only [Search.atDot, Bool.and_eq_true, decide_eq_true_eq, beq_iff_eq] at hdot
  obtain ⟨⟨hle, hfirst⟩, -⟩ := hdot
  refine ⟨hclean.set 1, hle, fun _ => ?_⟩
  rcases hbegun with hmarked | ⟨hpos, -⟩
  · exact (hmarked.set 1).mono (Nat.le_add_right _ 2)
  · have hlen := hclean.length
    refine ⟨1, by dsimp only; omega, getElem?_set_self (by omega), ?_⟩
    intro j hj c hc
    obtain rfl : j = 0 := by omega
    rw [getElem?_set_ne (by decide)] at hc
    rw [hpos] at hfirst
    rw [eq_of_getD hfirst hc]
    decide

/-- The round at a component `..`. -/
lemma translated_dotDot (hclean : CleanPath count s.path) (hbegun : Begun count s)
    (hdot : s.atDotDot count = true) (curni : Option Nat) (ok : Bool) :
    Translated count
      { s with path := s.path.set 2 slash, pos := s.pos + 3, curni := curni, ok := ok } := by
  simp only [Search.atDotDot, Bool.and_eq_true, decide_eq_true_eq, beq_iff_eq] at hdot
  obtain ⟨⟨⟨hle, hfirst⟩, hsecond⟩, -⟩ := hdot
  refine ⟨hclean.set 2, hle, fun _ => ?_⟩
  rcases hbegun with hmarked | ⟨hpos, -⟩
  · exact (hmarked.set 2).mono (Nat.le_add_right _ 3)
  · have hlen := hclean.length
    refine ⟨2, by dsimp only; omega, getElem?_set_self (by omega), ?_⟩
    intro j hj c hc
    rw [hpos] at hfirst hsecond
    rw [getElem?_set_ne (by omega)] at hc
    have hdot : c = dot := by
      obtain rfl | rfl : j = 0 ∨ j = 1 := by omega
      · exact eq_of_getD hfirst hc
      · exact eq_of_getD hsecond hc
    rw [hdot]
    decide

lemma marked_first (hfit : name.length < path.length) (hsep : nameSep ∉ name) (hzero : 0 ∉ name) :
    MarkedPath (name.length + 1) ((splice path 0 name).set name.length slash) := by
  have hfit' : 0 + name.length ≤ path.length := by omega
  refine ⟨name.length, Nat.lt_succ_self _, getElem?_set_self ?_, ?_⟩
  · rw [splice_length hfit']
    exact hfit
  · intro j hj c hc
    rw [getElem?_set_ne (by omega), splice_getElem? hfit', if_pos (by omega)] at hc
    have hmem := mem_of_getElem? hc
    constructor
    · rintro rfl
      exact hsep hmem
    · rintro rfl
      exact hzero hmem

section

variable (hclean : CleanPath count s.path) (hpos : s.pos ≤ count) (hbegun : Begun count s)
include hclean hpos hbegun

lemma translated_name : Translated count (v.searchName directory count curni s) := by
  rw [searchName]
  by_cases hlth : componentLength s.path count s.pos = 0
  · rw [if_pos hlth]
    exact translated_failed hclean hpos rfl
  rw [if_neg hlth]
  rcases hfix : v.fixFileName curni (component s.path count s.pos) with _ | ⟨inum, name⟩
  · exact translated_failed hclean hpos rfl
  obtain ⟨hlen, hfit, hsep, hcolon, hzero⟩ := fixed_component hclean hpos hfix
  have hclean' := hclean.splice hfit hcolon
  dsimp only
  cases hinode : v.inode inum with
  | none => exact translated_failed hclean' hpos rfl
  | some i =>
    dsimp only
    rw [← hlen]
    by_cases hmore : s.pos + name.length < count
    · rw [if_pos hmore]
      refine ⟨hclean'.set _, hmore, fun _ => ?_⟩
      rcases hbegun with hmarked | ⟨hzeropos, -⟩
      · exact ((hmarked.splice hfit).set _).mono (Nat.le_add_right _ (name.length + 1))
      · rw [hzeropos] at hmore ⊢
        rw [Nat.zero_add] at hmore ⊢
        exact marked_first (lt_of_lt_of_le hmore hclean.length) hsep hzero
    · rw [if_neg hmore]
      refine ⟨hclean', ?_, fun _ => ?_⟩
      · rw [hlen]
        exact componentLength_le hpos
      · rcases hbegun with hmarked | ⟨hzeropos, hshort⟩
        · exact (hmarked.splice hfit).mono (Nat.le_add_right _ _)
        · rw [hzeropos] at hmore hlen
          omega

lemma translated_step : Translated count (v.searchStep directory count curni s) := by
  rw [searchStep]
  split_ifs with hdot hdotDot
  · exact translated_dot hclean hbegun hdot
  · exact translated_dotDot hclean hbegun hdotDot _ _
  · exact translated_name hclean hpos hbegun

end

lemma translated_loop (h : Translated count s) :
    Translated count (v.searchLoop directory count rounds s) := by
  induction rounds generalizing s with
  | zero => exact h
  | succ rounds ih =>
    rw [searchLoop]
    cases hcur : s.curni with
    | none => exact h
    | some curni =>
      split_ifs with hgo
      · simp only [Bool.and_eq_true] at hgo
        exact ih (translated_step h.clean h.pos_le (.inl (h.marked hgo.1.1)))
      · exact h

/-- The whole search, when the target has a separator. -/
lemma translated_search (hclean : CleanPath count path) (hcount : 0 < count - 1)
    (hshort : componentLength path count 0 < count) :
    Translated count (v.searchLoop directory count (rounds + 1)
      { path := path, pos := 0, curni := some dir, ok := true, morelinks := false }) := by
  rw [searchLoop]
  dsimp only
  rw [if_pos (by simp [hcount])]
  exact translated_loop (translated_step hclean (Nat.zero_le count) (.inr ⟨rfl, hshort⟩))

lemma mem_of_marked (h : MarkedPath pos path) (hpos : pos ≤ count) :
    slash ∈ ((path.take count).takeWhile (· != nameSep)).takeWhile (· != 0) := by
  obtain ⟨k, hk, hslash, hbefore⟩ := h
  have hget : ∀ j ≤ k, (path.take count)[j]? = path[j]? := by
    intro j hj
    exact getElem?_take_of_lt (by omega)
  rw [takeWhile_and]
  apply mem_takeWhile_of_getElem? (k := k)
  · rw [hget k (le_refl k)]
    exact hslash
  · decide
  · intro j hj c hc
    rw [hget j (le_of_lt hj)] at hc
    obtain ⟨hsep, hzero⟩ := hbefore j hj c hc
    simp [hsep, hzero]

end

lemma enter_slash (htoken : v.ucstombs name = some token)
    (hslash : slash ∈ name.takeWhile (· != 0)) : v.enter dir token = none := by
  rw [enter]
  cases hconv : v.mbstoucs token with
  | none => rfl
  | some unicode =>
    dsimp only
    have hname := v.mbstoucs_ucstombs htoken hconv
    cases hlookup : v.lookup dir unicode with
    | none => simp
    | some ni =>
      rw [hname] at hlookup
      exact absurd hslash (v.lookup_slash hlookup)

lemma find_eq_none (hne : path.takeWhile (· != pathSep) ≠ [])
    (h : ∀ dir, v.enter dir (path.takeWhile (· != pathSep)) = none) : v.find path = none := by
  have hwalk : ∀ dir, v.walk dir [] path = none := fun dir => walk_eq_none hne (h dir)
  rw [find]
  generalize (if isAbsolute path then none else v.cwd) = parent
  cases parent with
  | none => simp [pathnameToInode, hwalk]
  | some dir => exact hwalk dir

/-- A translated path that has a slash leads nowhere. -/
lemma parseRound_translated {s : List UInt8} (h : Translated count st)
    (hok : st.ok = true) (hs : v.ucstombs (st.path.take count) = some s) :
    v.parseRound 1 s = .done none := by
  have hzero := v.ucstombs_zero hs
  have hcolon : 0x3A ∉ s := v.ucstombs_colon hs h.clean.colon_not_mem
  have hslash := mem_of_marked (h.marked hok) h.pos_le
  have hcomponent := v.ucstombs_component hs
  have hne : s.takeWhile (· != pathSep) ≠ [] := by
    intro hnil
    rw [hnil] at hcomponent
    rw [v.ucstombs_nil hcomponent] at hslash
    cases hslash
  have hs_ne : s ≠ [] := by
    rintro rfl
    exact hne rfl
  rw [parseRound, entryPath_of hcolon hzero hs_ne]
  dsimp only
  rw [find_eq_none hne fun dir => enter_slash hcomponent hslash]

end LinkVolume

lemma LinkInode.characters_length : (LinkInode.characters bytes).length = bytes.length / 2 := by
  induction bytes using LinkInode.characters.induct with
  | case1 low high bytes ih =>
    rw [LinkInode.characters, length_cons, length_cons, length_cons]
    omega
  | case2 bytes h =>
    rcases bytes with _ | ⟨low, _ | ⟨high, rest⟩⟩
    · rfl
    · simp [LinkInode.characters]
    · exact absurd rfl (h low high rest)

section

variable {i : LinkInode} (hsym : i.isSymlink = true) (hvalid : i.validReparseData = true)
include hsym hvalid

/-- Valid reparse data has the whole target. -/
lemma LinkInode.count_le : i.count ≤ i.junction.length := by
  have hfit : i.pathBuffer + i.substNameOffset + i.substNameLength ≤ i.reparse.length := by
    simp only [LinkInode.validReparseData, Bool.and_eq_true] at hvalid
    obtain ⟨-, hrange⟩ := hvalid
    split_ifs at hrange
    · simp only [Bool.and_eq_true, decide_eq_true_eq] at hrange
      exact hrange.2
    · simpa using hrange
  rw [LinkInode.junction, LinkInode.characters_length, length_drop, LinkInode.count]
  omega

lemma LinkInode.target_length : i.target.length = i.count := by
  rw [LinkInode.target, length_take]
  exact min_eq_left (LinkInode.count_le hsym hvalid)

end

lemma LinkInode.target_getD_ne {i : LinkInode} (hc : c ≠ 0) (h : i.junction.getD j 0 ≠ c) :
    i.target.getD j 0 ≠ c := by
  rw [getD_eq_getElem?_getD] at h ⊢
  rw [LinkInode.target, getElem?_take]
  split_ifs
  · exact h
  · exact hc.symm

/-- A relative target begins neither with a separator nor with a drive letter. -/
lemma LinkInode.target_of_rel {i : LinkInode} (h : targetKind i.junction = .rel) :
    i.target.getD 0 0 ≠ nameSep ∧ i.target.getD 1 0 ≠ colon := by
  rw [targetKind] at h
  split_ifs at h with hsep hcolon hcolon
  exact ⟨LinkInode.target_getD_ne (by decide) hsep, LinkInode.target_getD_ne (by decide) hcolon⟩

lemma storedTarget_of_rel {i : LinkInode} (h : targetKind i.junction = .rel) :
    storedTarget i.target = .relative i.target := by
  obtain ⟨hfirst, hsecond⟩ := LinkInode.target_of_rel h
  have hhead : ∀ text : List UInt16, text.getD 0 0 = nameSep → i.target.take 4 ≠ text := by
    intro text htext heq
    rw [← heq, getD_eq_getElem?_getD, getElem?_take_of_lt (by decide)] at htext
    exact hfirst htext
  have hfull : ¬ (i.target.take 4 = charsOf "\\??\\" ∨ i.target.take 4 = charsOf "\\\\?\\") := by
    rintro (heq | heq)
    · exact hhead _ (by decide) heq
    · exact hhead _ (by decide) heq
  rw [storedTarget, if_neg hfull, if_neg hsecond, if_neg hfirst]

namespace LinkVolume

variable {v : LinkVolume}

variable {ni dir n count : Nat} {i : LinkInode}

/-- A relative link whose target has a separator leads nowhere. -/
lemma parseRound_separated (hrel : i.isRelative = true) (hvalid : i.validReparseData = true)
    (hparent : v.parent ni = some dir) (hcolon : colon ∉ i.target) (hsep : nameSep ∈ i.target)
    (hs : v.searchRelative ni i.directory i.junction i.count = some s) :
    v.parseRound 1 s = .done none := by
  simp only [LinkInode.isRelative, Bool.and_eq_true, beq_iff_eq] at hrel
  obtain ⟨⟨-, hsym⟩, hkind⟩ := hrel
  have hclean : CleanPath i.count i.junction := by
    refine ⟨LinkInode.count_le hsym hvalid, ?_⟩
    intro j hj hget
    apply hcolon
    apply mem_of_getElem? (i := j)
    rw [LinkInode.target, getElem?_take_of_lt hj]
    exact hget
  -- the first component is not the whole target, which would have no separator then
  have hshort : componentLength i.junction i.count 0 < i.count := by
    have hle := @componentLength_le i.junction i.count 0 (Nat.zero_le i.count)
    refine Nat.lt_of_le_of_ne (by omega) ?_
    intro heq
    apply component_nameSep i.junction i.count 0
    rw [component, heq]
    exact hsep
  have hcount : 0 < i.count - 1 := by
    have hpos : componentLength i.junction i.count 0 ≠ 0 := by
      intro hzero
      obtain ⟨c, rest, htarget⟩ := exists_cons_of_ne_nil (ne_nil_of_mem hsep)
      have hfirst := (LinkInode.target_of_rel hkind).1
      rw [htarget] at hfirst
      have hc : (c != nameSep) = true := by simpa using hfirst
      rw [componentLength, ← LinkInode.target, htarget, drop_zero, takeWhile_cons,
        if_pos hc] at hzero
      cases hzero
    omega
  rw [searchRelative, hparent, searchResult] at hs
  split_ifs at hs with hok
  exact parseRound_translated (translated_search hclean hcount hshort) hok hs

/-- The target of a relative link that is a single name, in the case of the directory. One
of a single character is taken as it is. -/
def corrected (v : LinkVolume) (ni : Nat) (i : LinkInode) : Option (List UInt16) :=
  match v.parent ni with
  | none => some i.target
  | some dir =>
    if i.target.length ≤ 1 then some i.target
    else
      match v.fixFileName dir i.target with
      | none => none
      | some (inum, name) =>
        match v.inode inum with
        | none => none
        | some t => if t.reparsePoint || i.directory == t.directory then some name else none

lemma searchLoop_stop {s : Search}
    (h : s.curni = none ∨ (s.ok && !s.morelinks && decide (s.pos < count - 1)) = false) :
    v.searchLoop directory count rounds s = s := by
  cases rounds with
  | zero => rfl
  | succ rounds =>
    rw [searchLoop]
    cases hcur : s.curni with
    | none => rfl
    | some curni =>
      rcases h with hnone | hstop
      · rw [hcur] at hnone
        cases hnone
      · dsimp only
        rw [if_neg (by rw [hstop]; decide)]

/-- A single name is neither `.` nor `..` with a separator behind it. -/
lemma searchStep_single {s : Search} (hsep : nameSep ∉ s.path.take count) :
    v.searchStep directory count dir s = v.searchName directory count dir s := by
  have hnot : ∀ j < count, s.path.getD j 0 ≠ nameSep := by
    intro j hj heq
    rw [getD_eq_getElem?_getD] at heq
    cases hget : s.path[j]? with
    | none =>
      rw [hget] at heq
      cases heq
    | some c =>
      rw [hget] at heq
      have hc : c = nameSep := heq
      apply hsep
      apply mem_of_getElem? (i := j)
      rw [getElem?_take_of_lt hj, hget, hc]
  have hdot : ¬ s.atDot count = true := by
    intro h
    simp only [Search.atDot, Bool.and_eq_true, decide_eq_true_eq, beq_iff_eq] at h
    exact hnot _ (by omega) h.2
  have hdotDot : ¬ s.atDotDot count = true := by
    intro h
    simp only [Search.atDotDot, Bool.and_eq_true, decide_eq_true_eq, beq_iff_eq] at h
    exact hnot _ (by omega) h.2
  rw [searchStep, if_neg hdot, if_neg hdotDot]

lemma searchRelative_single (hsym : i.isSymlink = true) (hvalid : i.validReparseData = true)
    (hsep : nameSep ∉ i.target) :
    v.searchRelative ni i.directory i.junction i.count = (v.corrected ni i).bind v.ucstombs := by
  have hlen := LinkInode.target_length hsym hvalid
  have hcomponent : component i.junction i.count 0 = i.target := by
    rw [component_eq]
    apply takeWhile_eq_self_iff.mpr
    intro c hc
    simp only [bne_iff_ne]
    rintro rfl
    exact hsep hc
  have hlength : componentLength i.junction i.count 0 = i.count := by
    rw [← component_length, hcomponent, hlen]
  rw [searchRelative, corrected]
  cases hparent : v.parent ni with
  | none =>
    rfl
  | some dir =>
    by_cases hshort : i.target.length ≤ 1
    · have hpos : ¬ 0 < i.count - 1 := by omega
      rw [searchLoop_stop (.inr (by simp [hpos]))]
      dsimp only
      rw [if_pos hshort]
      rfl
    · have hpos : 0 < i.count - 1 := by omega
      have hround : ∀ rounds, v.searchLoop i.directory i.count (rounds + 1)
          { path := i.junction, pos := 0, curni := some dir, ok := true, morelinks := false } =
          v.searchLoop i.directory i.count rounds (v.searchName i.directory i.count dir
            { path := i.junction, pos := 0, curni := some dir, ok := true,
              morelinks := false }) := by
        intro rounds
        rw [searchLoop]
        dsimp only
        rw [if_pos (by simp [hpos])]
        congr 1
        exact searchStep_single hsep
      have hcount : ¬ i.count = 0 := by omega
      have hfinish : ¬ 0 + i.count < i.count := by omega
      rw [hround 30, searchName]
      dsimp only
      rw [hlength, if_neg hcount, if_neg hshort, hcomponent]
      rcases hfix : v.fixFileName dir i.target with _ | ⟨inum, name⟩
      · rfl
      · dsimp only
        cases hinode : v.inode inum with
        | none =>
          rfl
        | some t =>
          have hname := v.fixFileName_length hfix
          have htake : (splice i.junction 0 name).take i.count = name := by
            rw [← hlen, ← hname, ← Nat.zero_add name.length,
              splice_take_end _ _ (Nat.zero_le _), take_zero, nil_append]
          dsimp only
          rw [if_neg hfinish, searchLoop_stop (.inr (by simp)), searchResult]
          rw [Bool.true_and, htake]
          split_ifs <;> rfl

/-! ## Opening a link -/

/-- The path `path`, as it is looked for, leads to a link. -/
structure LinkAt (v : LinkVolume) (path p : List UInt8) (ni : Nat) (i : LinkInode) : Prop where
  entry : entryPath path = some p
  found : v.find p = some ni
  inode : v.inode ni = some i
  link : i.possibleSymlink = true

structure SingleName (v : LinkVolume) (ni : Nat) (i : LinkInode) (s : List UInt8) : Prop where
  relative : i.isRelative = true
  valid : i.validReparseData = true
  flagged : i.flagged = true
  single : nameSep ∉ i.target
  path : (v.corrected ni i).bind v.ucstombs = some s

lemma searchRelative_zero (h : v.searchRelative ni directory name count = some s) : 0 ∉ s := by
  rw [searchRelative, searchResult] at h
  split_ifs at h
  exact v.ucstombs_zero h

lemma parseRound_linkAt (hat : v.LinkAt path p ni i) :
    v.parseRound 1 path =
      (v.makeSymlink ni i (mountPointPath p)).elim (.done none) fun s => .link (cstr s) := by
  rw [parseRound, hat.entry]
  dsimp only
  rw [hat.found]
  dsimp only
  rw [hat.inode]
  dsimp only
  rw [if_pos hat.link, if_neg (by decide)]
  cases v.makeSymlink ni i (mountPointPath p) <;> rfl

lemma makeSymlink_relative (hlink : i.possibleSymlink = true) (hrel : i.isRelative = true) :
    v.makeSymlink ni i mntPoint = some target ↔
      i.validReparseData = true ∧ i.flagged = true ∧
        v.searchRelative ni i.directory i.junction i.count = some target := by
  simp only [LinkInode.isRelative, Bool.and_eq_true, Bool.not_eq_true', beq_iff_eq] at hrel
  obtain ⟨⟨hmount, hsym⟩, hkind⟩ := hrel
  simp only [LinkInode.possibleSymlink, Bool.and_eq_true] at hlink
  obtain ⟨⟨-, hdata⟩, -⟩ := hlink
  rw [makeSymlink, hdata, hmount, hsym, symlinkTarget, hkind]
  cases i.validReparseData <;> simp

lemma makeSymlink_of_single (hlink : i.possibleSymlink = true) (h : v.SingleName ni i s) :
    v.makeSymlink ni i mntPoint = some s := by
  have hrel := h.relative
  simp only [LinkInode.isRelative, Bool.and_eq_true] at hrel
  rw [makeSymlink_relative hlink h.relative, searchRelative_single hrel.1.2 h.valid h.single]
  exact ⟨h.valid, h.flagged, h.path⟩

lemma SingleName.zero (h : v.SingleName ni i s) : 0 ∉ s := by
  obtain ⟨name, -, hname⟩ := bind_eq_some_iff.mp h.path
  exact v.ucstombs_zero hname

end LinkVolume

end NtfsDxe
