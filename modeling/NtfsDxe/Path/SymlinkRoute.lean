import NtfsDxe.Path.SymlinkTarget

/-! # The route of a path

`ntfsOpenEntry` starts with the level 1 and passes the same level on to every target. The
check of the level against `NTFS_MAX_SYMLINK_DEPTH` therefore never fails, and the links are
followed to the end of the route, if it has one. A route through a junction or an absolute
link that is looked for by an absolute path has none. A relative link leads to its target
only if that is a single name, which is then looked for in the current directory.
-/

namespace NtfsDxe

open List LinkVolume Option

namespace LinkVolume

/-- A relative link whose target is rewritten to `s` and has a separator. -/
structure SeparatedName (v : LinkVolume) (ni : Nat) (i : LinkInode) (s : List UInt8) : Prop where
  relative : i.isRelative = true
  valid : i.validReparseData = true
  flagged : i.flagged = true
  separator : nameSep ∈ i.target
  path : v.searchRelative ni i.directory i.junction i.count = some s

/-- The separators of the target become slashes, which no name has. This is so unless the
directory of the link is not found, or a colon cuts off what stands before it. -/
def Slashed (v : LinkVolume) (ni : Nat) (i : LinkInode) : Prop :=
  colon ∉ i.target ∧ v.parent ni ≠ none

/-- The path leads along this many links to an entry, or to none. -/
inductive Route (v : LinkVolume) : List UInt8 → Nat → Option Nat → Prop
  /-- Nothing is found. -/
  | missing (h : ∀ p ni, entryPath path = some p → v.find p = some ni → v.inode ni = none) :
    v.Route path 0 none
  /-- What is found is no link. -/
  | entry (hpath : entryPath path = some p) (hfind : v.find p = some ni)
      (hinode : v.inode ni = some i) (hplain : i.possibleSymlink = false) :
    v.Route path 0 (some ni)
  /-- No path can be made of the stored target. -/
  | broken (hat : v.LinkAt path p ni i) (h : v.makeSymlink ni i (mountPointPath p) = none) :
    v.Route path 0 none
  /-- A single name is looked for in the current directory. -/
  | name (hat : v.LinkAt path p ni i) (hname : v.SingleName ni i s) (hnext : v.Route s links e) :
    v.Route path (links + 1) e
  /-- A name with a slash is not found. -/
  | slashed (hat : v.LinkAt path p ni i) (hname : v.SeparatedName ni i s)
      (hslashed : v.Slashed ni i) : v.Route path 1 none
  | unslashed (hat : v.LinkAt path p ni i) (hname : v.SeparatedName ni i s)
      (hslashed : ¬ v.Slashed ni i) (hnext : v.Route s links e) : v.Route path (links + 1) e
  /-- Any other link is taken for the path it was found by, without its first character. There
  is no such case for an absolute path, which does not lose a character. -/
  | rest (hat : v.LinkAt path p ni i) (hrel : i.isRelative = false)
      (hmade : (v.makeSymlink ni i p.tail).isSome = true) (habs : isAbsolute p = false)
      (hnext : v.Route p.tail links e) : v.Route path (links + 1) e

variable {v : LinkVolume} {path p : List UInt8} {ni n : Nat} {i : LinkInode}

lemma mountPointPath_of_relative (habs : isAbsolute p = false) : mountPointPath p = p.tail := by
  rw [mountPointPath, if_neg (by rw [habs]; decide)]

lemma parseRound_missing
    (h : ∀ p ni, entryPath path = some p → v.find p = some ni → v.inode ni = none) :
    v.parseRound 1 path = .done none := by
  rw [parseRound]
  cases hpath : entryPath path with
  | none => rfl
  | some p =>
    dsimp only
    cases hfind : v.find p with
    | none => rfl
    | some ni =>
      dsimp only
      rw [h p ni hpath hfind]

lemma parseRound_entry (hpath : entryPath path = some p) (hfind : v.find p = some ni)
    (hinode : v.inode ni = some i) (hplain : i.possibleSymlink = false) :
    v.parseRound 1 path = .done (some ni) := by
  rw [parseRound, hpath]
  dsimp only
  rw [hfind]
  dsimp only
  rw [hinode]
  dsimp only
  rw [hplain, if_neg Bool.false_ne_true]

/-- What stands at a path: nothing, an entry that is no link, or a link. -/
lemma path_cases (v : LinkVolume) (path : List UInt8) :
    (∀ p ni, entryPath path = some p → v.find p = some ni → v.inode ni = none) ∨
      (∃ p ni i, entryPath path = some p ∧ v.find p = some ni ∧ v.inode ni = some i ∧
        i.possibleSymlink = false) ∨
      ∃ p ni i, v.LinkAt path p ni i := by
  by_cases hmissing : ∀ p ni, entryPath path = some p → v.find p = some ni → v.inode ni = none
  · exact .inl hmissing
  · push Not at hmissing
    obtain ⟨p, ni, hpath, hfind, hinode⟩ := hmissing
    obtain ⟨i, hinode⟩ := ne_none_iff_exists'.mp hinode
    cases hlink : i.possibleSymlink with
    | true => exact .inr (.inr ⟨p, ni, i, hpath, hfind, hinode, hlink⟩)
    | false => exact .inr (.inl ⟨p, ni, i, hpath, hfind, hinode, hlink⟩)

lemma LinkAt.unique (hat : v.LinkAt path p ni i) (hpath : entryPath path = some p')
    (hfind : v.find p' = some ni') (hinode : v.inode ni' = some i') :
    (p, ni, i) = (p', ni', i') := by
  cases hat.entry.symm.trans hpath
  cases hat.found.symm.trans hfind
  cases hat.inode.symm.trans hinode
  rfl

lemma LinkAt.again (hat : v.LinkAt path p ni i) : v.LinkAt p p ni i :=
  { hat with entry := entryPath_self hat.entry }

/-- The link is looked for again by the path it was found by. -/
lemma parseRound_self (hat : v.LinkAt path p ni i) (hrel : i.isRelative = false)
    (habs : isAbsolute p = true) (hmake : v.makeSymlink ni i (mountPointPath p) = some s) :
    cstr s = p ∧ v.parseRound 1 p = .link p := by
  have hmount : mountPointPath p = p := by rw [mountPointPath, if_pos habs]
  have hstr : cstr s = p := by
    rw [cstr_of_makeSymlink hrel hmake, cstr_mountPointPath hat.entry, hmount]
  have hround := parseRound_linkAt hat.again
  rw [hmake, elim_some, hstr] at hround
  exact ⟨hstr, hround⟩

lemma cstr_rest (hat : v.LinkAt path p ni i) (hrel : i.isRelative = false)
    (habs : isAbsolute p = false) (hmake : v.makeSymlink ni i (mountPointPath p) = some s) :
    cstr s = p.tail := by
  rw [cstr_of_makeSymlink hrel hmake, cstr_mountPointPath hat.entry,
    mountPointPath_of_relative habs]

/-- The path that is made of a relative target is a single name or a separated one. -/
lemma name_of_makeSymlink (hat : v.LinkAt path p ni i) (hrel : i.isRelative = true)
    (hmake : v.makeSymlink ni i (mountPointPath p) = some s) :
    cstr s = s ∧ (v.SingleName ni i s ∨ v.SeparatedName ni i s) := by
  obtain ⟨hvalid, hflag, hsearch⟩ := (makeSymlink_relative hat.link hrel).mp hmake
  refine ⟨cstr_of_not_mem (searchRelative_zero hsearch), ?_⟩
  by_cases hsep : nameSep ∈ i.target
  · exact .inr ⟨hrel, hvalid, hflag, hsep, hsearch⟩
  · have hsym := hrel
    simp only [LinkInode.isRelative, Bool.and_eq_true] at hsym
    rw [searchRelative_single hsym.1.2 hvalid hsep] at hsearch
    exact .inl ⟨hrel, hvalid, hflag, hsep, hsearch⟩

lemma SeparatedName.makeSymlink (hlink : i.possibleSymlink = true)
    (h : v.SeparatedName ni i s) : v.makeSymlink ni i mntPoint = some s :=
  (makeSymlink_relative hlink h.relative).mpr ⟨h.valid, h.flagged, h.path⟩

lemma SeparatedName.parseRound (h : v.SeparatedName ni i s) (hslashed : v.Slashed ni i) :
    v.parseRound 1 s = .done none := by
  obtain ⟨hcolon, hparent⟩ := hslashed
  obtain ⟨dir, hparent⟩ := ne_none_iff_exists'.mp hparent
  exact parseRound_separated h.relative h.valid hparent hcolon h.separator h.path

lemma slashed_of_linkTarget (hrel : i.isRelative = true) (h : v.linkTarget ni i = some n) :
    v.Slashed ni i := by
  simp only [LinkInode.isRelative, Bool.and_eq_true, beq_iff_eq] at hrel
  rw [linkTarget, storedTarget_of_rel hrel.2] at h
  dsimp only at h
  split_ifs at h with hcolon
  obtain ⟨dir, hdir, -⟩ := bind_eq_some_iff.mp h
  exact ⟨hcolon, by rw [hdir]; exact some_ne_none dir⟩

/-- One call of `ntfsParseEntry` that goes on with a target. -/
lemma route_of_link (hat : v.LinkAt path p ni i)
    (hmake : v.makeSymlink ni i (mountPointPath p) = some s)
    (hopen : v.openEntry fuel (cstr s) = some (e, links)) (hnext : v.Route (cstr s) links e) :
    v.Route path (links + 1) e := by
  cases hrel : i.isRelative with
  | true =>
    obtain ⟨hstr, hname | hname⟩ := name_of_makeSymlink hat hrel hmake
    · rw [hstr] at hnext
      exact .name hat hname hnext
    · rw [hstr] at hnext hopen
      by_cases hslashed : v.Slashed ni i
      · cases fuel with
        | zero => cases hopen
        | succ fuel =>
          rw [openEntry, parseEntry_done (hname.parseRound hslashed)] at hopen
          cases hopen
          exact .slashed hat hname hslashed
      · exact .unslashed hat hname hslashed hnext
  | false =>
    cases habs : isAbsolute p with
    | true =>
      obtain ⟨hstr, hself⟩ := parseRound_self hat hrel habs hmake
      rw [hstr, openEntry_of_self hself] at hopen
      cases hopen
    | false =>
      rw [cstr_rest hat hrel habs hmake] at hnext
      rw [mountPointPath_of_relative habs] at hmake
      exact .rest hat hrel (by rw [hmake]; rfl) habs hnext

lemma route_of_openEntry (h : v.openEntry fuel path = some (e, links)) : v.Route path links e := by
  induction fuel generalizing path links with
  | zero => cases h
  | succ fuel ih =>
    rw [openEntry] at h
    rcases v.path_cases path with hmissing | ⟨p, ni, i, hpath, hfind, hinode, hplain⟩ |
      ⟨p, ni, i, hat⟩
    · rw [parseEntry_done (parseRound_missing hmissing)] at h
      cases h
      exact .missing hmissing
    · rw [parseEntry_done (parseRound_entry hpath hfind hinode hplain)] at h
      cases h
      exact .entry hpath hfind hinode hplain
    · have hround := parseRound_linkAt hat
      cases hmake : v.makeSymlink ni i (mountPointPath p) with
      | none =>
        rw [hmake] at hround
        rw [parseEntry_done hround] at h
        cases h
        exact .broken hat hmake
      | some s =>
        rw [hmake] at hround
        rw [parseEntry_link hround] at h
        obtain ⟨⟨e', links'⟩, hopen, heq⟩ := Option.map_eq_some_iff.mp h
        cases heq
        exact route_of_link hat hmake hopen (ih hopen)

lemma openEntry_done (h : v.parseRound 1 path = .done e) :
    ∃ fuel, v.openEntry fuel path = some (e, 0) := ⟨1, parseEntry_done h⟩

lemma openEntry_link (hat : v.LinkAt path p ni i)
    (hmake : v.makeSymlink ni i (mountPointPath p) = some s)
    (h : ∃ fuel, v.openEntry fuel (cstr s) = some (e, links)) :
    ∃ fuel, v.openEntry fuel path = some (e, links + 1) := by
  obtain ⟨fuel, hopen⟩ := h
  have hround := parseRound_linkAt hat
  rw [hmake] at hround
  refine ⟨fuel + 1, ?_⟩
  rw [openEntry] at hopen ⊢
  rw [parseEntry_link hround, hopen]
  rfl

lemma openEntry_of_route (h : v.Route path links e) :
    ∃ fuel, v.openEntry fuel path = some (e, links) := by
  induction h with
  | missing h => exact openEntry_done (parseRound_missing h)
  | entry hpath hfind hinode hplain =>
    exact openEntry_done (parseRound_entry hpath hfind hinode hplain)
  | broken hat h =>
    have hround := parseRound_linkAt hat
    rw [h] at hround
    exact openEntry_done hround
  | name hat hname _ ih =>
    refine openEntry_link hat (makeSymlink_of_single hat.link hname) ?_
    rwa [cstr_of_not_mem hname.zero]
  | slashed hat hname hslashed =>
    refine openEntry_link hat (hname.makeSymlink hat.link) ?_
    rw [cstr_of_not_mem (searchRelative_zero hname.path)]
    exact openEntry_done (hname.parseRound hslashed)
  | unslashed hat hname _ _ ih =>
    refine openEntry_link hat (hname.makeSymlink hat.link) ?_
    rwa [cstr_of_not_mem (searchRelative_zero hname.path)]
  | rest hat hrel hmade habs _ ih =>
    obtain ⟨s, hmake⟩ := isSome_iff_exists.mp hmade
    rw [← mountPointPath_of_relative habs] at hmake
    refine openEntry_link hat hmake ?_
    rwa [cstr_rest hat hrel habs hmake]

/-- `ntfsOpenEntry` ends just where the route of the path does. -/
lemma openEntry_iff_route :
    (∃ fuel, v.openEntry fuel path = some (e, links)) ↔ v.Route path links e :=
  ⟨fun ⟨_, h⟩ => route_of_openEntry h, openEntry_of_route⟩

lemma opens_iff_route : v.Opens path n ↔ ∃ links, v.Route path links (some n) := by
  rw [Opens, exists_comm]
  exact exists_congr fun links => openEntry_iff_route

end LinkVolume

/-! ## A junction -/

lemma toUInt16_toUInt8 {c : UInt16} (hc : c < 0x80) : c.toUInt8.toUInt16 = c := by
  have hlt : c.toNat < 128 := UInt16.lt_iff_toNat_lt.mp hc
  apply UInt16.toNat_inj.mp
  rw [UInt8.toNat_toUInt16, UInt16.toNat_toUInt8]
  omega

def isAscii (w : List UInt16) : Bool := w.all fun c => decide (c < 0x80)

lemma lt_of_isAscii (h : isAscii w = true) : ∀ c ∈ w, c < 0x80 := by
  intro c hc
  exact of_decide_eq_true (all_eq_true.mp h c hc)

lemma isAscii_takeWhile (h : isAscii w = true) (p : UInt16 → Bool) :
    isAscii (w.takeWhile p) = true := by
  apply all_eq_true.mpr
  intro c hc
  exact decide_eq_true (lt_of_isAscii h c ((takeWhile_sublist p).subset hc))

def asciiCharset : Charset where
  ucstombs w := if isAscii w then some ((w.takeWhile (· != 0)).map (·.toUInt8)) else none
  mbstoucs s := some (s.map (·.toUInt16))
  ucstombs_zero := by
    intro w s h hzero
    split_ifs at h with hascii
    cases h
    have hw := lt_of_isAscii hascii
    obtain ⟨c, hc, hc0⟩ := mem_map.mp hzero
    have hc' := toUInt16_toUInt8 (hw c ((takeWhile_sublist _).subset hc))
    rw [hc0] at hc'
    have hne := mem_takeWhile_imp hc
    rw [← hc'] at hne
    exact absurd hne (by decide)
  ucstombs_colon := by
    intro w s h hcolon hmem
    split_ifs at h with hascii
    cases h
    have hw := lt_of_isAscii hascii
    obtain ⟨c, hc, hc0⟩ := mem_map.mp hmem
    have hcw : c ∈ w := (takeWhile_sublist _).subset hc
    have hc' := toUInt16_toUInt8 (hw c hcw)
    rw [hc0] at hc'
    apply hcolon
    have heq : colon = c := hc'
    rwa [heq]
  ucstombs_component := by
    intro w s h
    split_ifs at h with hascii
    cases h
    have hw := lt_of_isAscii hascii
    rw [if_pos (isAscii_takeWhile hascii _)]
    congr 1
    clear hascii
    induction w with
    | nil => rfl
    | cons c w ih =>
      have hc' := toUInt16_toUInt8 (hw c (mem_cons_self ..))
      have ih := ih fun d hd => hw d (mem_cons_of_mem c hd)
      by_cases hzero : c = 0
      · subst hzero
        rfl
      · by_cases hsep : c = nameSep
        · subst hsep
          rfl
        · have hsep' : c.toUInt8 ≠ pathSep := by
            intro heq
            rw [heq] at hc'
            exact hsep hc'.symm
          simp only [takeWhile_cons, bne_iff_ne, ne_eq, hzero, hsep, not_false_eq_true,
            if_true, map_cons, hsep', ih]
  ucstombs_nil := by
    intro w h
    split_ifs at h
    exact map_eq_nil_iff.mp (Option.some.inj h)
  mbstoucs_ucstombs := by
    intro w s u h hu
    split_ifs at h with hascii
    cases h
    have hw := lt_of_isAscii hascii
    cases hu
    rw [List.map_map]
    conv_rhs => rw [← map_id (w.takeWhile (· != 0))]
    apply map_congr_left
    intro c hc
    exact toUInt16_toUInt8 (hw c ((takeWhile_sublist _).subset hc))

structure LinkEntry where
  dir : Nat
  name : List UInt16
  ni : Nat

def LinkVolume.ofEntries (inode : Nat → Option LinkInode) (entries : List LinkEntry) :
    LinkVolume where
  toCharset := asciiCharset
  inode := inode
  lookup dir name :=
    if slash ∈ name then none
    else (entries.find? fun e => e.dir == dir && e.name == name).map (·.ni)
  fixFileName dir name :=
    if 0 ∈ name then none
    else (entries.find? fun e => e.dir == dir && e.name == name).map fun e => (e.ni, name)
  parent ni := (entries.find? fun e => e.ni == ni).map (·.dir)
  driveLetter _ := 0
  cwd := none
  lookup_slash := by
    intro dir name ni h hslash
    rw [if_pos hslash] at h
    cases h
  fixFileName_length := by
    intro dir name ni name' h
    split_ifs at h
    obtain ⟨e, -, heq⟩ := Option.map_eq_some_iff.mp h
    cases heq
    rfl
  fixFileName_zero := by
    intro dir name ni name' h
    split_ifs at h with hzero
    obtain ⟨e, -, heq⟩ := Option.map_eq_some_iff.mp h
    cases heq
    exact hzero
  fixFileName_ascii := by
    intro dir name ni name' c h _ hc
    split_ifs at h
    obtain ⟨e, -, heq⟩ := Option.map_eq_some_iff.mp h
    cases heq
    exact hc

def storedCharacters (name : List UInt16) : List UInt8 :=
  name.flatMap fun c : UInt16 => [c.toUInt8, (c >>> 8).toUInt8]

def junctionData (name : List UInt16) : List UInt8 :=
  let size := storedCharacters [(2 * name.length).toUInt16]
  [3, 0, 0, 0xA0] ++ storedCharacters [(2 * name.length + 8).toUInt16] ++ [0, 0] ++ [0,
    0] ++ size ++
    [0, 0, 0, 0] ++ storedCharacters name

def plainDirectory : LinkInode where
  directory := true
  reparsePoint := false
  reparse := []

/-- A junction to the directory `d`. -/
def junctionLink : LinkInode where
  directory := true
  reparsePoint := true
  reparse := junctionData (charsOf "\\??\\C:\\d")

/-- The root directory has a directory `d` and a junction `j` to it. -/
def junctionVolume : LinkVolume :=
  .ofEntries
    (fun ni =>
      if ni = 5 then some plainDirectory
      else if ni = 6 then some plainDirectory
      else if ni = 7 then some junctionLink
      else none)
    [⟨5, charsOf "d", 6⟩, ⟨5, charsOf "j", 7⟩]

lemma junctionVolume_self :
    junctionVolume.parseRound 1 (bytesOf "\\j") = .link (bytesOf "\\j") := by
  decide +kernel

/-- The reparse data of a symbolic link that is not a full one. -/
def symlinkData (name : List UInt16) : List UInt8 :=
  let size := storedCharacters [(2 * name.length).toUInt16]
  [0x0C, 0, 0, 0xA0] ++ storedCharacters [(2 * name.length + 12).toUInt16] ++ [0, 0] ++ [0, 0] ++
    size ++ [0, 0, 0, 0] ++ [1, 0, 0, 0] ++ storedCharacters name

/-- A symbolic link to `f1`. -/
def symlinkInode : LinkInode where
  directory := false
  reparsePoint := true
  reparse := symlinkData (charsOf "f1")

/-- The root directory has a file `f1` and a symbolic link `ln` to it. -/
def symlinkVolume : LinkVolume :=
  .ofEntries
    (fun ni =>
      if ni = 5 then some plainDirectory
      else if ni = 6 then some { plainDirectory with directory := false }
      else if ni = 7 then some symlinkInode
      else none)
    [⟨5, charsOf "f1", 6⟩, ⟨5, charsOf "ln", 7⟩]

end NtfsDxe
