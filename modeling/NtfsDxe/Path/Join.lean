import NtfsDxe.Core.Machine
import Mathlib.Data.List.DropRight

/-! # Joining a path and a name

`CreateFileName` writes a directory's path and a name relative to it into the
caller's buffer, and then removes doubled backslashes in place. It is given no
length: the buffer of `NtfsOpenFile` has 260 bytes and starts out zeroed.
-/

namespace NtfsDxe

open List

/-- The byte `'\\'`. -/
def backslash : UInt8 := 92

/-- The name `"."`. -/
def dotName : List UInt8 := [46]

/-- The name `".."`. -/
def dotDotName : List UInt8 := [46, 46]

/-! ## The code -/

/-- `while (*s) *Destination++ = *s++`: the buffer and the new position. -/
def copyString (buf : Buffer) (d : Nat) : List UInt8 → Except Failure (Buffer × Nat)
  | [] => .ok (buf, d)
  | c :: s =>
    match store buf d c with
    | .error e => .error e
    | .ok buf' => copyString buf' (d + 1) s

/-- The loop for `".."`: clear bytes backwards, up to and with a backslash. The
first byte of the buffer is not looked at. -/
def parentLoop (buf : Buffer) : Nat → Except Failure (Buffer × Nat)
  | 0 => .ok (buf, 0)
  | d + 1 =>
    match load buf (d + 1) with
    | .error e => .error e
    | .ok c =>
      match store buf (d + 1) 0 with
      | .error e => .error e
      | .ok buf' => if c = backslash then .ok (buf', d) else parentLoop buf' d

/-- `while (*Path == *FileName)`: the rest of the name. -/
def skipPath (path : List UInt8) : List UInt8 → List UInt8
  | [] => []
  | c :: name => if path.headD 0 = c then skipPath path.tail name else c :: name

def moveByte (buf : Buffer) (dst src : Nat) : Except Failure Buffer :=
  match load buf src with
  | .error e => .error e
  | .ok c => store buf dst c

/-- `ClearPtr[0] == '\\' && ClearPtr[1] == '\\'`. -/
def doubledAt (buf : Buffer) (clear : Nat) : Except Failure Bool :=
  match load buf clear with
  | .error e => .error e
  | .ok c =>
    if c = backslash then
      match load buf (clear + 1) with
      | .error e => .error e
      | .ok c' => .ok (c' = backslash)
    else .ok false

/-- The last loop of `CreateFileName`, with `len` bytes left before the end. -/
def clearLoop (buf : Buffer) (clear : Nat) (bReset : Bool) : Nat → Except Failure Buffer
  | 0 => .ok buf
  | len + 1 =>
    match load buf clear with
    | .error e => .error e
    | .ok c =>
      if c = 0 then .ok buf
      else
        match doubledAt buf clear with
        | .error e => .error e
        | .ok true =>
          match moveByte buf (clear + 1) (clear + 2) with
          | .error e => .error e
          | .ok buf' => clearLoop buf' (clear + 1) true len
        | .ok false =>
          if bReset then
            match moveByte buf clear (clear + 1) with
            | .error e => .error e
            | .ok buf' => clearLoop buf' (clear + 1) true len
          else clearLoop buf (clear + 1) false len

/-- From the label `end` on: the buffer and the length. -/
def finishName : Except Failure (Buffer × Nat) → Except Failure (Buffer × Nat)
  | .error e => .error e
  | .ok (buf, d) =>
    match clearLoop buf 0 false d with
    | .error e => .error e
    | .ok buf' => .ok (buf', d)

/-- The name `".."`, with the path in the buffer up to `d`. -/
def parentName (buf : Buffer) (d : Nat) : Except Failure (Buffer × Nat) :=
  match store buf d 0 with
  | .error e => .error e
  | .ok buf' =>
    match parentLoop buf' d with
    | .error e => .error e
    | .ok (buf'', d') => .ok (buf'', d' + 1)

/-- Any other name, with the path in the buffer up to `d`. The byte before `d` is
its last one. -/
def appendName (buf : Buffer) (d : Nat) (name : List UInt8) : Except Failure (Buffer × Nat) :=
  if d = 0 then .error .outOfBounds
  else
    match load buf (d - 1) with
    | .error e => .error e
    | .ok c =>
      if c = backslash ∧ name.headD 0 = backslash then copyString buf (d - 1) name
      else if c ≠ backslash ∧ name.headD 0 ≠ backslash then
        match store buf d backslash with
        | .error e => .error e
        | .ok buf' => copyString buf' (d + 1) name
      else copyString buf d name

/-- `CreateFileName`: the buffer and the returned length. Behind the copy of the
path `Path` stands at its terminating zero. -/
def createFileName (buf : Buffer) (path name : List UInt8) : Except Failure (Buffer × Nat) :=
  match copyString buf 0 path with
  | .error e => .error e
  | .ok (buf', d) =>
    if name = dotName then finishName (.ok (buf', d))
    else if name = dotDotName then finishName (parentName buf' d)
    else finishName (appendName buf' d (skipPath [] name))

/-! ## What the result is to be -/

def collapse : List UInt8 → List UInt8
  | a :: b :: s =>
    if a = backslash ∧ b = backslash then collapse (b :: s) else a :: collapse (b :: s)
  | s => s

/-- A path without the backslashes at its end. -/
def trimRight (s : List UInt8) : List UInt8 := s.rdropWhile (· = backslash)

def withoutLast (path : List UInt8) : List UInt8 :=
  let parent := trimRight ((trimRight path).rdropWhile (· ≠ backslash))
  if parent = [] then [backslash] else parent

def joinedPath (path name : List UInt8) : List UInt8 :=
  if name = dotName then path
  else if name = dotDotName then withoutLast path
  else collapse (path ++ backslash :: name)

/-- The buffer of `NtfsOpenFile`. -/
def nameBuffer : Buffer := replicate 260 0

/-- `CreateFileName` stays inside the buffer, leaves the path there as a string,
and returns its length. -/
def JoinsPath (path name : List UInt8) : Prop :=
  ∃ rest, createFileName nameBuffer path name =
    .ok (joinedPath path name ++ 0 :: rest, (joinedPath path name).length)

/-! ## Strings in the buffer -/

/-- The buffer with a string at its start and zeros behind it. -/
def padded (s : List UInt8) : Buffer := s ++ replicate (260 - s.length) 0

variable {s t path init last : List UInt8} {i d d' clear len stop : Nat}

lemma padded_length (hs : s.length ≤ 260) : (padded s).length = 260 := by
  simp [padded]
  omega

lemma padded_getElem? (hi : i < s.length) : (padded s)[i]? = s[i]? :=
  getElem?_append_left hi

lemma getElem?_of_padded (hget : (padded s)[i]? = some backslash) : s[i]? = some backslash := by
  rw [padded, getElem?_append] at hget
  split_ifs at hget
  · exact hget
  · exact absurd (mem_replicate.mp (mem_of_getElem? hget)).2 (by decide)

lemma padded_getElem?_end (hs : s.length < 260) : (padded s)[s.length]? = some 0 := by
  rw [padded, getElem?_append_right (le_refl _), getElem?_replicate_of_lt (by omega)]

/-- A byte behind the string extends it. -/
lemma store_padded (hs : s.length < 260) :
    store (padded s) s.length c = .ok (padded (s ++ [c])) := by
  have hroom : 260 - s.length = (260 - (s ++ [c]).length) + 1 := by
    rw [length_append, length_singleton]
    omega
  rw [store_ok c (by rw [padded_length (by omega)]; exact hs), padded, hroom,
    replicate_succ, set_append_right _ _ (le_refl _), Nat.sub_self,
    set_cons_zero, padded, append_assoc, singleton_append]

/-- Clearing its last byte shortens the string. -/
lemma store_padded_zero (c : UInt8) (hs : s.length < 260) :
    store (padded (s ++ [c])) s.length 0 = .ok (padded s) := by
  have hlen : (s ++ [c]).length = s.length + 1 := by simp
  have hroom : 260 - s.length = (260 - (s ++ [c]).length) + 1 := by omega
  rw [store_ok 0 (by rw [padded_length (by omega)]; exact hs), padded, append_assoc,
    set_append_right _ _ (le_refl _), Nat.sub_self, singleton_append,
    set_cons_zero, padded, hroom, replicate_succ]

lemma load_padded_last (s : List UInt8) (c : UInt8) :
    load (padded (s ++ [c])) s.length = .ok c := by
  apply load_ok
  rw [padded_getElem? (by simp)]
  simp

/-- Storing the byte that is there changes nothing. -/
lemma store_same (hget : buf[i]? = some c) : store buf i c = .ok buf := by
  have hi : i < buf.length := (List.getElem?_eq_some_iff.mp hget).1
  rw [store_ok c hi]
  congr 1
  apply ext_getElem?
  intro j
  by_cases hj : i = j
  · subst hj
    rw [hget, getElem?_set_self hi]
  · rw [getElem?_set_ne hj]

/-! ## Copying -/

lemma of_load_ok (hrun : load buf i = .ok c) : buf[i]? = some c := by
  unfold load at hrun
  split at hrun
  next hget =>
    cases hrun
    exact hget
  · cases hrun

lemma of_store_ok (hrun : store buf i c = .ok buf') : i < buf.length ∧ buf' = buf.set i c := by
  unfold store at hrun
  split at hrun
  next hi =>
    cases hrun
    exact ⟨hi, rfl⟩
  · cases hrun

lemma copyString_spec (hrun : copyString buf d s = .ok (buf', d')) :
    buf'.length = buf.length ∧ d' = d + s.length := by
  induction s generalizing buf d with
  | nil =>
    cases hrun
    exact ⟨rfl, rfl⟩
  | cons c s ih =>
    rw [copyString] at hrun
    split at hrun
    · cases hrun
    next buf₁ hstore =>
      obtain ⟨hlen, hd⟩ := ih hrun
      rw [(of_store_ok hstore).2, length_set] at hlen
      rw [length_cons]
      omega

lemma copyString_padded (hfit : s.length + t.length ≤ 260) :
    copyString (padded s) s.length t = .ok (padded (s ++ t), (s ++ t).length) := by
  induction t generalizing s with
  | nil => simp [copyString]
  | cons c t ih =>
    rw [length_cons] at hfit
    have hnext := @ih (s ++ [c]) (by simp; omega)
    rw [append_assoc, length_append] at hnext
    rw [copyString, store_padded (by omega)]
    exact hnext

lemma copyString_nameBuffer (hs : s.length ≤ 260) :
    copyString nameBuffer 0 s = .ok (padded s, s.length) :=
  @copyString_padded [] s (by simpa using hs)

def nameSuffix (path name : List UInt8) : List UInt8 :=
  if path.getLast? = some backslash then
    if name.headD 0 = backslash then name.tail else name
  else if name.headD 0 = backslash then name else backslash :: name

lemma skipPath_nil (hname : 0 ∉ name) : skipPath [] name = name := by
  cases name with
  | nil => rfl
  | cons c name =>
    rw [skipPath, if_neg]
    rintro rfl
    exact hname mem_cons_self

/-- A name other than the dots is copied behind the path. -/
lemma appendName_padded (hne : path ≠ []) (hpath : path.length < 260) :
    appendName (padded path) path.length name =
      copyString (padded path) path.length (nameSuffix path name) := by
  obtain ⟨init, c, rfl⟩ := (eq_nil_or_concat path).resolve_left hne
  rw [concat_eq_append] at *
  have hlen : (init ++ [c]).length = init.length + 1 := by simp
  have hlast : (init ++ [c]).getLast? = some c := by simp
  rw [appendName, if_neg (by omega), hlen, Nat.add_sub_cancel, load_padded_last, nameSuffix, hlast]
  dsimp only
  by_cases hc : c = backslash
  · subst hc
    rw [if_pos rfl]
    by_cases hname : name.headD 0 = backslash
    · -- The first byte of the name is stored over the last one of the path.
      cases name with
      | nil => exact absurd hname (by decide)
      | cons b name =>
        have hb : b = backslash := hname
        subst hb
        have hover : store (padded (init ++ [backslash])) init.length backslash =
            .ok (padded (init ++ [backslash])) := by
          apply store_same
          rw [padded_getElem? (by omega)]
          simp
        rw [copyString, hover]
        rfl
    · rw [if_neg (fun h => hname h.2), if_neg (fun h => h.1 rfl), if_neg hname]
  · rw [if_neg (fun h => hc h.1), if_neg (fun h => hc (Option.some.inj h))]
    by_cases hname : name.headD 0 = backslash
    · rw [if_neg (fun h => h.2 hname), if_pos hname]
    · rw [if_pos ⟨hc, hname⟩, if_neg hname]
      rfl

/-! ## Going to the parent -/

/-- One round of the loop clears the last byte. -/
lemma parentLoop_last (c : UInt8) (hne : s ≠ []) (hs : s.length < 260) :
    parentLoop (padded (s ++ [c])) s.length =
      if c = backslash then .ok (padded s, s.length - 1)
      else parentLoop (padded s) (s.length - 1) := by
  obtain ⟨n, hn⟩ : ∃ n, s.length = n + 1 :=
    Nat.exists_eq_succ_of_ne_zero (fun h => hne (length_eq_zero_iff.mp h))
  have hload := load_padded_last s c
  have hstore := store_padded_zero c hs
  rw [hn] at hload hstore
  rw [hn, parentLoop, hload]
  rw [hstore]
  rfl

/-- What is left of a path behind whose last backslash everything is cleared; the root stays. -/
def rootOr (init : List UInt8) : List UInt8 := if init = [] then [backslash] else init

section

variable (hlast : backslash ∉ last) (hlen : (init ++ backslash :: last).length < 260)
include hlast hlen

/-- Up to the last backslash behind the first byte. -/
lemma parentLoop_padded :
    parentLoop (padded (init ++ backslash :: last)) ((init ++ backslash :: last).length - 1) =
      .ok (padded (rootOr init), (rootOr init).length - 1) := by
  induction last using reverseRecOn with
  | nil =>
    rw [length_append, length_singleton] at hlen ⊢
    by_cases hinit : init = []
    · subst hinit
      rfl
    · rw [Nat.add_sub_cancel, parentLoop_last backslash hinit (by omega), if_pos rfl, rootOr,
        if_neg hinit]
  | append_singleton last c ih =>
    have hsplit : init ++ backslash :: (last ++ [c]) = init ++ backslash :: last ++ [c] := by
      simp
    have hc : c ≠ backslash := by
      rintro rfl
      exact hlast (by simp)
    rw [hsplit, length_append, length_singleton] at hlen ⊢
    rw [Nat.add_sub_cancel, parentLoop_last c (by simp) (by omega), if_neg hc]
    exact ih (fun h => hlast (mem_append_left _ h)) (by omega)

/-- The search starts behind the path, where nothing is found. -/
lemma parentName_padded :
    parentName (padded (init ++ backslash :: last)) (init ++ backslash :: last).length =
      .ok (padded (rootOr init), (rootOr init).length) := by
  have hrun := parentLoop_padded hlast hlen
  have hpos : 0 < (rootOr init).length := by
    unfold rootOr
    split
    · decide
    · next hinit => exact length_pos_of_ne_nil hinit
  obtain ⟨n, hn⟩ : ∃ n, (init ++ backslash :: last).length = n + 1 := ⟨_, length_append⟩
  have hend := padded_getElem?_end hlen
  have hstore := store_same hend
  have hload := load_ok hend
  rw [hn] at hstore hload hrun ⊢
  rw [Nat.add_sub_cancel] at hrun
  rw [parentName, hstore]
  dsimp only
  rw [parentLoop, hload]
  rw [hstore]
  dsimp only
  rw [if_neg (by decide), hrun]
  dsimp only
  rw [Nat.sub_add_cancel hpos]

end

/-! ## Removing doubled backslashes -/

def Doubled (s : List UInt8) : Prop := [backslash, backslash] <:+: s

instance (s : List UInt8) : Decidable (Doubled s) :=
  inferInstanceAs (Decidable (_ <:+: _))

lemma doubledAt_of_getElem? (hc : buf[i]? = some c) (hc' : buf[i + 1]? = some c') :
    doubledAt buf i = .ok (decide (c = backslash ∧ c' = backslash)) := by
  rw [doubledAt, load_ok hc]
  by_cases hb : c = backslash
  · rw [load_ok hc']
    simp [hb]
  · simp [hb]

/-- Two backslashes from `i` on. -/
abbrev PairAt (buf : Buffer) (i : Nat) : Prop :=
  buf[i]? = some backslash ∧ buf[i + 1]? = some backslash

lemma doubled_iff_pairAt : Doubled s ↔ ∃ i, PairAt s i := by
  constructor
  · rintro ⟨init, rest, rfl⟩
    refine ⟨init.length, ?_, ?_⟩
    · simp
    · simp
  · rintro ⟨i, hi, hi'⟩
    obtain ⟨hlt, hget⟩ := List.getElem?_eq_some_iff.mp hi
    obtain ⟨hlt', hget'⟩ := List.getElem?_eq_some_iff.mp hi'
    refine ⟨s.take i, s.drop (i + 2), ?_⟩
    have hdrop : s.drop i = backslash :: backslash :: s.drop (i + 2) := by
      rw [drop_eq_getElem_cons hlt, hget, drop_eq_getElem_cons hlt', hget']
    rw [append_assoc, cons_append, singleton_append, ← hdrop, take_append_drop]

/-- Without doubled backslashes nothing changes. -/
lemma clearLoop_same (hend : clear + len < buf.length) (hsingle : ∀ i, ¬ PairAt buf i) :
    clearLoop buf clear false len = .ok buf := by
  induction len generalizing clear with
  | zero => rfl
  | succ len ih =>
    have hc := getElem?_eq_getElem (by omega : clear < buf.length)
    have hc' := getElem?_eq_getElem (by omega : clear + 1 < buf.length)
    have hno := hsingle clear
    rw [PairAt, hc, hc'] at hno
    rw [clearLoop, load_ok hc]
    dsimp only
    by_cases hzero : buf[clear] = 0
    · rw [if_pos hzero]
    · rw [if_neg hzero, doubledAt_of_getElem? hc hc', decide_eq_false (by simpa using hno)]
      exact ih (by omega)

lemma of_moveByte_ok (hrun : moveByte buf dst src = .ok buf') :
    ∃ c, buf[src]? = some c ∧ dst < buf.length ∧ buf' = buf.set dst c := by
  unfold moveByte at hrun
  split at hrun
  · cases hrun
  next c hload => exact ⟨c, of_load_ok hload, of_store_ok hrun⟩

lemma of_doubledAt_ok (hrun : doubledAt buf i = .ok b) : b = true ↔ PairAt buf i := by
  unfold doubledAt at hrun
  split at hrun
  · cases hrun
  next c hload =>
    rw [PairAt, of_load_ok hload]
    split at hrun
    next hc =>
      split at hrun
      · cases hrun
      next c' hload' =>
        cases hrun
        rw [of_load_ok hload']
        simp [hc]
    next hc =>
      cases hrun
      simp [hc]

/-- What one round of the last loop does before the end of the string. -/
lemma clearLoop_round (hc : buf[clear]? = some c) (hne : c ≠ 0)
    (hrun : clearLoop buf clear bReset (len + 1) = .ok buf') :
    (PairAt buf clear ∧ ∃ b, buf[clear + 2]? = some b ∧ clear + 1 < buf.length ∧
      clearLoop (buf.set (clear + 1) b) (clear + 1) true len = .ok buf') ∨
    (¬ PairAt buf clear ∧
      ((bReset = false ∧ clearLoop buf (clear + 1) false len = .ok buf') ∨
        (bReset = true ∧ ∃ b, buf[clear + 1]? = some b ∧ clear < buf.length ∧
          clearLoop (buf.set clear b) (clear + 1) true len = .ok buf'))) := by
  rw [clearLoop, load_ok hc] at hrun
  dsimp only at hrun
  rw [if_neg hne] at hrun
  split at hrun
  · cases hrun
  next hdouble =>
    left
    split at hrun
    · cases hrun
    next hmove =>
      obtain ⟨b, hb, hdst, rfl⟩ := of_moveByte_ok hmove
      exact ⟨(of_doubledAt_ok hdouble).mp rfl, b, hb, hdst, hrun⟩
  next hdouble =>
    right
    refine ⟨fun h => absurd ((of_doubledAt_ok hdouble).mpr h) (by decide), ?_⟩
    split at hrun
    next hreset =>
      split at hrun
      · cases hrun
      next hmove =>
        obtain ⟨b, hb, hdst, rfl⟩ := of_moveByte_ok hmove
        exact .inr ⟨hreset, b, hb, hdst, hrun⟩
    next hreset =>
      rw [Bool.not_eq_true] at hreset
      exact .inl ⟨hreset, hreset ▸ hrun⟩

lemma clearLoop_of_zero (hzero : buf[clear]? = some 0) :
    clearLoop buf clear bReset len = .ok buf := by
  cases len with
  | zero => rfl
  | succ len =>
    rw [clearLoop, load_ok hzero]
    rfl

/-- From the first doubled backslash on everything is moved down by one place, and
the zero at the end with it. -/
lemma clearLoop_ends_zero (hlen : 0 < len) (hstop : clear + len = stop)
    (hbytes : ∀ i, clear ≤ i → i < stop → ∃ c, buf[i]? = some c ∧ c ≠ 0)
    (hend : buf[stop]? = some 0)
    (hmoves : bReset = true ∨ ∃ i, clear ≤ i ∧ i + 1 < stop ∧ PairAt buf i)
    (hrun : clearLoop buf clear bReset len = .ok buf') : buf'[stop - 1]? = some 0 := by
  induction len generalizing buf clear bReset with
  | zero => omega
  | succ len ih =>
    obtain ⟨c, hc, hne⟩ := hbytes clear (le_refl _) (by omega)
    have hstop' : clear + 1 + len = stop := by omega
    rcases clearLoop_round hc hne hrun with
      ⟨⟨_, hsecond⟩, b, hb, hroom, hnext⟩ | ⟨hsingle, ⟨hreset, hnext⟩ | ⟨_, b, hb, hroom, hnext⟩⟩
    · -- The zero is not the second backslash.
      have hpos : 0 < len := by
        by_contra hzero
        obtain rfl : clear + 1 = stop := by omega
        rw [hsecond] at hend
        exact absurd hend (by decide)
      by_cases hlast : len = 1
      · obtain rfl : clear + 2 = stop := by omega
        rw [hend] at hb
        cases hb
        have hset : (buf.set (clear + 1) 0)[clear + 1]? = some 0 := getElem?_set_self hroom
        rw [clearLoop_of_zero hset] at hnext
        cases hnext
        exact hset
      · refine ih hpos hstop' ?_ ?_ (.inl rfl) hnext
        · intro i hi hi'
          by_cases hfirst : i = clear + 1
          · subst hfirst
            obtain ⟨c', hc', hne'⟩ := hbytes (clear + 2) (by omega) (by omega)
            rw [hc'] at hb
            cases hb
            exact ⟨_, getElem?_set_self hroom, hne'⟩
          · rw [getElem?_set_ne (Ne.symm hfirst)]
            exact hbytes i (by omega) hi'
        · rwa [getElem?_set_ne (by omega)]
    · obtain ⟨i, hi, hi', hpair⟩ := hmoves.resolve_left (by rw [hreset]; decide)
      have hlater : clear + 1 ≤ i := by
        rcases Nat.eq_or_lt_of_le hi with rfl | hlt
        · exact absurd hpair hsingle
        · exact hlt
      exact ih (by omega) hstop' (fun j hj => hbytes j (by omega)) hend
        (.inr ⟨i, hlater, hi', hpair⟩) hnext
    · by_cases hzero : len = 0
      · subst hzero hstop
        rw [hb] at hend
        cases hend
        cases hnext
        exact getElem?_set_self hroom
      · refine ih (by omega) hstop' ?_ ?_ (.inl rfl) hnext
        · intro i hi
          rw [getElem?_set_ne (by omega)]
          exact hbytes i (by omega)
        · rwa [getElem?_set_ne (by omega)]

/-- The last loop leaves a string of the returned length exactly when there is no
doubled backslash, and then it changes nothing. -/
lemma finishName_iff (hs : 0 ∉ s) (hw : 0 ∉ w) (hlen : s.length < 260) :
    (∃ rest, finishName (.ok (padded s, s.length)) = .ok (w ++ 0 :: rest, w.length)) ↔
      ¬ Doubled s ∧ w = s := by
  have hbytes : ∀ i, 0 ≤ i → i < s.length → ∃ c, (padded s)[i]? = some c ∧ c ≠ 0 := by
    intro i _ hi
    rw [padded_getElem? hi, getElem?_eq_getElem hi]
    refine ⟨_, rfl, ?_⟩
    intro hzero
    exact hs (hzero ▸ getElem_mem hi)
  have hsame : ¬ Doubled s → clearLoop (padded s) 0 false s.length = .ok (padded s) := by
    intro hsingle
    apply clearLoop_same (by rw [padded_length (by omega)]; omega)
    rintro i ⟨hfirst, hsecond⟩
    exact hsingle (doubled_iff_pairAt.mpr
      ⟨i, getElem?_of_padded hfirst, getElem?_of_padded hsecond⟩)
  constructor
  · rintro ⟨rest, hrun⟩
    rw [finishName] at hrun
    split at hrun
    · cases hrun
    next buf' hclear =>
      obtain ⟨hbuf, hlength⟩ := Prod.mk.inj (Except.ok.inj hrun)
      have hsingle : ¬ Doubled s := by
        intro hdouble
        obtain ⟨i, hfirst, hsecond⟩ := doubled_iff_pairAt.mp hdouble
        have hi : i + 1 < s.length := (List.getElem?_eq_some_iff.mp hsecond).1
        rw [← padded_getElem? hi] at hsecond
        rw [← padded_getElem? (by omega)] at hfirst
        have hzero := clearLoop_ends_zero (by omega) (zero_add _) hbytes
          (padded_getElem?_end hlen) (.inr ⟨i, Nat.zero_le _, hi, hfirst, hsecond⟩) hclear
        rw [hbuf, getElem?_append_left (by omega)] at hzero
        exact hw (mem_of_getElem? hzero)
      refine ⟨hsingle, ?_⟩
      rw [hsame hsingle] at hclear
      cases hclear
      exact (append_inj hbuf hlength).1.symm
  · rintro ⟨hsingle, rfl⟩
    refine ⟨replicate (259 - w.length) 0, ?_⟩
    have hroom : 260 - w.length = (259 - w.length) + 1 := by omega
    rw [finishName, hsame hsingle, padded, hroom, replicate_succ]

lemma clearLoop_length (hrun : clearLoop buf clear bReset len = .ok buf') :
    buf'.length = buf.length := by
  induction len generalizing buf clear bReset with
  | zero =>
    cases hrun
    rfl
  | succ len ih =>
    cases hget : buf[clear]? with
    | none =>
      rw [clearLoop, load, hget] at hrun
      cases hrun
    | some c =>
      by_cases hzero : c = 0
      · subst hzero
        rw [clearLoop_of_zero hget] at hrun
        cases hrun
        rfl
      · rcases clearLoop_round hget hzero hrun with
          ⟨_, b, _, _, hnext⟩ | ⟨_, ⟨_, hnext⟩ | ⟨_, b, _, _, hnext⟩⟩
        · rw [ih hnext, length_set]
        · exact ih hnext
        · rw [ih hnext, length_set]

/-- The last loop keeps the size of the buffer, and the length does not depend on
it. -/
lemma finishName_length (hrun : finishName r = .ok (buf', d')) :
    ∃ buf, r = .ok (buf, d') ∧ buf'.length = buf.length := by
  cases r with
  | error e => cases hrun
  | ok p =>
    obtain ⟨buf, d⟩ := p
    rw [finishName] at hrun
    split at hrun
    · cases hrun
    next hclear =>
      cases hrun
      exact ⟨buf, rfl, clearLoop_length hclear⟩

/-! ## The expected path -/

lemma collapse_double :
    collapse (s ++ backslash :: backslash :: t) = collapse (s ++ backslash :: t) := by
  induction s with
  | nil => rw [nil_append, collapse, if_pos ⟨rfl, rfl⟩, nil_append]
  | cons a s ih =>
    cases s with
    | nil =>
      rw [nil_append, nil_append] at ih
      rw [singleton_append, singleton_append]
      conv_rhs => rw [collapse]
      rw [collapse, ih]
    | cons b s =>
      rw [cons_append, cons_append] at ih
      rw [cons_append, cons_append, cons_append, cons_append]
      conv_rhs => rw [collapse]
      rw [collapse, ih]

lemma collapse_of_not_doubled (hs : ¬ Doubled s) : collapse s = s := by
  induction s with
  | nil => rfl
  | cons a s ih =>
    have htail : ¬ Doubled s := fun h => hs (h.trans (suffix_cons a s).isInfix)
    cases s with
    | nil => rfl
    | cons b s =>
      rw [collapse, if_neg, ih htail]
      rintro ⟨rfl, rfl⟩
      exact hs ⟨[], s, rfl⟩

/-- The code joins path and name like the specification, up to doubled
backslashes inside them. -/
lemma collapse_nameSuffix :
    collapse (path ++ nameSuffix path name) = collapse (path ++ backslash :: name) := by
  have hname : name.headD 0 = backslash → ∃ rest, name = backslash :: rest := by
    intro hhead
    cases name with
    | nil => exact absurd hhead (by decide)
    | cons b rest => exact ⟨rest, congrArg (· :: rest) hhead⟩
  unfold nameSuffix
  by_cases hends : path.getLast? = some backslash
  · obtain ⟨init, rfl⟩ : ∃ init, path = init ++ [backslash] :=
      ⟨path.dropLast, (dropLast_append_getLast? _ hends).symm⟩
    rw [if_pos hends, append_assoc, append_assoc, singleton_append,
      singleton_append, collapse_double]
    by_cases hhead : name.headD 0 = backslash
    · obtain ⟨rest, rfl⟩ := hname hhead
      rw [if_pos hhead, tail_cons, collapse_double]
    · rw [if_neg hhead]
  · rw [if_neg hends]
    by_cases hhead : name.headD 0 = backslash
    · obtain ⟨rest, rfl⟩ := hname hhead
      rw [if_pos hhead, collapse_double]
    · rw [if_neg hhead]

lemma not_mem_collapse (hs : 0 ∉ s) : 0 ∉ collapse s := by
  induction s with
  | nil => exact hs
  | cons a s ih =>
    have htail : 0 ∉ s := fun h => hs (mem_cons_of_mem a h)
    cases s with
    | nil => exact hs
    | cons b s =>
      rw [collapse]
      split_ifs
      · exact ih htail
      · intro h
        rcases mem_cons.mp h with rfl | h
        · exact hs mem_cons_self
        · exact ih htail h

/-- A stretch of bytes at the end that are all dropped. -/
lemma rdropWhile_append_all (ht : ∀ c ∈ t, p c = true) :
    (s ++ t).rdropWhile p = s.rdropWhile p := by
  induction t using reverseRecOn with
  | nil => rw [append_nil]
  | append_singleton t c ih =>
    rw [← append_assoc, rdropWhile_concat_pos p _ c (ht c (by simp))]
    exact ih (fun c hc => ht c (mem_append_left _ hc))

lemma trimRight_backslash : trimRight (s ++ [backslash]) = trimRight s :=
  rdropWhile_concat_pos _ s backslash (by decide)

lemma trimRight_eq_self (hs : s.getLast? ≠ some backslash) : trimRight s = s := by
  apply rdropWhile_eq_self_iff.mpr
  intro hne hlast
  apply hs
  rw [getLast?_eq_some_getLast hne, of_decide_eq_true hlast]

lemma trimRight_getLast? : (trimRight s).getLast? ≠ some backslash := by
  intro h
  have hne : trimRight s ≠ [] := by
    rintro hnil
    rw [hnil] at h
    cases h
  rw [getLast?_eq_some_getLast hne] at h
  exact rdropWhile_last_not _ s hne (decide_eq_true (Option.some.inj h))

section

variable (s : List UInt8) (hlast : backslash ∉ last)
include hlast

/-- The component behind a backslash is dropped, up to the backslash. -/
lemma rdropWhile_component :
    (s ++ backslash :: last).rdropWhile (· ≠ backslash) = s ++ [backslash] := by
  have hall : ∀ c ∈ last, decide (c ≠ backslash) = true := by
    intro c hc
    apply decide_eq_true
    rintro rfl
    exact hlast hc
  have hsplit : s ++ backslash :: last = (s ++ [backslash]) ++ last := by simp
  rw [hsplit, rdropWhile_append_all hall]
  exact rdropWhile_concat_neg _ s backslash (by decide)

lemma getLast?_component (hne : last ≠ []) : (s ++ last).getLast? ≠ some backslash := by
  intro h
  rw [getLast?_append_of_ne_nil _ hne, getLast?_eq_some_getLast hne] at h
  exact hlast (Option.some.inj h ▸ getLast_mem hne)

/-- The last component is not empty, and stands behind a backslash. -/
lemma withoutLast_component (hne : last ≠ []) :
    withoutLast (s ++ backslash :: last) = rootOr (trimRight s) := by
  have hend : (s ++ backslash :: last).getLast? ≠ some backslash := by
    rw [append_cons]
    exact getLast?_component _ hlast hne
  rw [withoutLast, trimRight_eq_self hend, rdropWhile_component s hlast, trimRight_backslash,
    rootOr]

end

lemma withoutLast_root (hlast : backslash ∉ last) :
    withoutLast (backslash :: last) = [backslash] := by
  by_cases hempty : last = []
  · subst hempty
    decide
  · exact withoutLast_component [] hlast hempty

/-- With a backslash at the end more than that is dropped. -/
lemma withoutLast_trailing (hlen : 1 < init.length) (hend : init.getLast? ≠ some backslash) :
    withoutLast (init ++ [backslash]) ≠ init := by
  intro heq
  rw [withoutLast, trimRight_backslash, trimRight_eq_self hend] at heq
  -- At least the last byte of `init` is dropped.
  have hne : init ≠ [] := ne_nil_of_length_pos (by omega)
  have hshort : (init.rdropWhile (· ≠ backslash)).length < init.length := by
    obtain ⟨front, c, rfl⟩ := (eq_nil_or_concat init).resolve_left hne
    rw [concat_eq_append] at *
    have hc : c ≠ backslash := by
      rintro rfl
      exact hend (by simp)
    rw [rdropWhile_concat_pos _ front c (decide_eq_true hc)]
    have hle := ( rdropWhile_prefix (fun c => decide (c ≠ backslash)) front).length_le
    exact lt_of_le_of_lt hle (by simp)
  have htrim := ( rdropWhile_prefix (fun c => decide (c = backslash))
    (init.rdropWhile (· ≠ backslash))).length_le
  have hlength := congrArg length heq
  unfold trimRight at hlength
  split_ifs at hlength
  · rw [length_singleton] at hlength
    omega
  · omega

lemma withoutLast_getLast? (hlen : (withoutLast path).length ≠ 1) :
    (withoutLast path).getLast? ≠ some backslash := by
  rw [withoutLast] at hlen ⊢
  split_ifs at hlen ⊢ with hnil
  · exact absurd rfl hlen
  · exact trimRight_getLast?

lemma not_mem_withoutLast (hpath : 0 ∉ path) : 0 ∉ withoutLast path := by
  rw [withoutLast]
  split_ifs
  · decide
  · intro h
    apply hpath
    exact ( rdropWhile_prefix _ _).subset (( rdropWhile_prefix _ _).subset
      (( rdropWhile_prefix _ _).subset h))

/-! ## When the result is right -/

/-- The paths and names that are joined right. For a dot the path has no doubled
backslash; for two dots it has none either and does not end with one, unless all
its backslashes are among the first two bytes; and any other name is joined within
the buffer and without a doubled backslash. -/
def JoinablePath (path name : List UInt8) : Prop :=
  if name = dotName then ¬ Doubled path
  else if name = dotDotName then
    backslash ∉ path.drop 2 ∨ ¬ Doubled path ∧ path.getLast? ≠ some backslash
  else
    (path ++ nameSuffix path name).length < 260 ∧ ¬ Doubled (path ++ nameSuffix path name)

instance (path name : List UInt8) : Decidable (JoinablePath path name) := by
  unfold JoinablePath
  infer_instance

lemma exists_last_backslash (hs : backslash ∈ s) :
    ∃ init last, s = init ++ backslash :: last ∧ backslash ∉ last := by
  obtain ⟨last, init, heq, hlast⟩ := eq_append_cons_of_mem (mem_reverse.mpr hs)
  refine ⟨init.reverse, last.reverse, ?_, by simpa using hlast⟩
  rw [← reverse_reverse s, heq]
  simp

/-- A component behind a single backslash does not double one. -/
lemma not_doubled_append (hinit : ¬ Doubled init) (hend : init.getLast? ≠ some backslash)
    (hlast : backslash ∉ last) : ¬ Doubled (init ++ backslash :: last) := by
  rw [doubled_iff_pairAt] at hinit ⊢
  rintro ⟨i, hfirst, hsecond⟩
  rcases lt_trichotomy (i + 1) init.length with hlt | heq | hgt
  · rw [getElem?_append_left (by omega)] at hfirst
    rw [getElem?_append_left hlt] at hsecond
    exact hinit ⟨i, hfirst, hsecond⟩
  · rw [getElem?_append_left (by omega)] at hfirst
    apply hend
    rw [getLast?_eq_getElem?, ← heq, Nat.add_sub_cancel, hfirst]
  · -- The second backslash would lie in the last component.
    obtain ⟨j, hj⟩ : ∃ j, i + 1 - init.length = j + 1 := ⟨i - init.length, by omega⟩
    rw [getElem?_append_right (by omega), hj] at hsecond
    exact hlast (mem_of_getElem? hsecond)

/-- The name `".."` in a path with a backslash behind its first byte. -/
lemma parent_iff (hstart : init.head? = some backslash) (hlast : backslash ∉ last) :
    (¬ Doubled init ∧ withoutLast (init ++ backslash :: last) = init) ↔
      backslash ∉ (init ++ backslash :: last).drop 2 ∨
        ¬ Doubled (init ++ backslash :: last) ∧
          (init ++ backslash :: last).getLast? ≠ some backslash := by
  cases init with
  | nil => cases hstart
  | cons b init =>
    obtain rfl : b = backslash := Option.some.inj hstart
    cases init with
    | nil =>
      refine ⟨fun _ => .inl hlast, fun _ => ⟨by decide, ?_⟩⟩
      by_cases hempty : last = []
      · subst hempty
        decide
      · exact withoutLast_component [backslash] hlast hempty
    | cons c init =>
      have hmem : backslash ∈ (backslash :: c :: init ++ backslash :: last).drop 2 := by
        simp
      constructor
      · rintro ⟨hsingle, heq⟩
        have hend : (backslash :: c :: init).getLast? ≠ some backslash := by
          rw [← heq]
          apply withoutLast_getLast?
          rw [heq]
          simp
        refine .inr ⟨not_doubled_append hsingle hend hlast, ?_⟩
        intro htrail
        have hempty : last = [] := by
          by_contra hne
          rw [append_cons] at htrail
          exact getLast?_component _ hlast hne htrail
        subst hempty
        exact withoutLast_trailing (by simp) hend heq
      · rintro (hnone | ⟨hsingle, htrail⟩)
        · exact absurd hmem hnone
        · have hinit : ¬ Doubled (backslash :: c :: init) :=
            fun h => hsingle (h.trans (prefix_append _ _).isInfix)
          have hend : (backslash :: c :: init).getLast? ≠ some backslash := by
            intro hend
            apply hsingle
            rw [← dropLast_append_getLast? _ hend]
            exact ⟨(backslash :: c :: init).dropLast, last, by simp⟩
          have hne : last ≠ [] := by
            rintro rfl
            exact htrail getLast?_concat
          refine ⟨hinit, (withoutLast_component _ hlast hne).trans ?_⟩
          rw [trimRight_eq_self hend, rootOr, if_neg (by simp)]

section Join

lemma finishName_appendName_iff (hne : path ≠ []) (hpath : path.length < 260)
    (hpath0 : 0 ∉ path) (hname0 : 0 ∉ name) :
    (∃ rest, finishName (appendName (padded path) path.length name) =
      .ok (collapse (path ++ backslash :: name) ++ 0 :: rest,
        (collapse (path ++ backslash :: name)).length)) ↔
      (path ++ nameSuffix path name).length < 260 ∧ ¬ Doubled (path ++ nameSuffix path name) := by
  have hsuffix0 : 0 ∉ path ++ nameSuffix path name := by
    unfold nameSuffix
    intro h
    rcases mem_append.mp h with h | h
    · exact hpath0 h
    · split_ifs at h
      · exact hname0 (mem_of_mem_tail h)
      · exact hname0 h
      · exact hname0 h
      · rcases mem_cons.mp h with h | h
        · exact absurd h (by decide)
        · exact hname0 h
  have hcollapse0 := not_mem_collapse hsuffix0
  rw [appendName_padded hne hpath, ← collapse_nameSuffix]
  by_cases hlen : (path ++ nameSuffix path name).length < 260
  · have hfit : path.length + (nameSuffix path name).length ≤ 260 := by
      rw [length_append] at hlen
      omega
    rw [copyString_padded hfit, finishName_iff hsuffix0 hcollapse0 hlen]
    constructor
    · rintro ⟨hsingle, _⟩
      exact ⟨hlen, hsingle⟩
    · rintro ⟨_, hsingle⟩
      exact ⟨hsingle, collapse_of_not_doubled hsingle⟩
  · constructor
    · rintro ⟨rest, hrun⟩
      -- The returned length leaves no place for the zero.
      obtain ⟨buf, hcopy, hsize⟩ := finishName_length hrun
      obtain ⟨hbuf, hreturned⟩ := copyString_spec hcopy
      rw [padded_length (by omega)] at hbuf
      rw [length_append, length_cons] at hsize
      rw [length_append] at hlen
      omega
    · rintro ⟨hfits, _⟩
      exact absurd hfits hlen

end Join

/-- `CreateFileName` joins a path and a name as it should exactly for the pairs
described by `JoinablePath`. -/
theorem createFileName_iff (hstart : path.head? = some backslash)
    (hpath0 : 0 ∉ path) (hname0 : 0 ∉ name) (hpath : path.length < 260) :
    JoinsPath path name ↔ JoinablePath path name := by
  have hne : path ≠ [] := by
    rintro rfl
    cases hstart
  unfold JoinsPath JoinablePath joinedPath
  rw [createFileName, copyString_nameBuffer (by omega), skipPath_nil hname0]
  dsimp only
  by_cases hdot : name = dotName
  · simp only [if_pos hdot]
    rw [finishName_iff hpath0 hpath0 hpath]
    exact and_iff_left rfl
  · simp only [if_neg hdot]
    by_cases hdots : name = dotDotName
    · simp only [if_pos hdots]
      obtain ⟨rest, rfl⟩ : ∃ rest, path = backslash :: rest := by
        cases path with
        | nil => cases hstart
        | cons b rest => exact ⟨rest, congrArg (· :: rest) (Option.some.inj hstart)⟩
      by_cases hmem : backslash ∈ rest
      · obtain ⟨init, last, rfl, hlast⟩ := exists_last_backslash hmem
        rw [← cons_append] at *
        have hinit0 : 0 ∉ backslash :: init := fun h => hpath0 (mem_append_left _ h)
        have hshort : (backslash :: init).length < 260 := by
          rw [length_append] at hpath
          omega
        rw [parentName_padded hlast hpath, rootOr, if_neg (cons_ne_nil _ _),
          finishName_iff hinit0 (not_mem_withoutLast hpath0) hshort]
        exact parent_iff rfl hlast
      · have hparent := @parentName_padded [] rest hmem hpath
        rw [nil_append] at hparent
        rw [hparent, withoutLast_root hmem]
        have hroot := @finishName_iff [backslash] [backslash] (by decide) (by decide) (by decide)
        exact iff_of_true (hroot.mpr ⟨by decide, rfl⟩)
          (.inl (fun h => hmem (mem_of_mem_drop h)))
    · simp only [if_neg hdots]
      exact finishName_appendName_iff hne hpath hpath0 hname0

/-- The root and a name. -/
theorem createFileName_root : JoinsPath [backslash] [97, 98] :=
  (createFileName_iff rfl (by decide) (by decide) (by decide)).mpr (by decide)

/-- Behind the path `\a` the name `\\b` is joined to `\a\b`, but the length returned
is that of `\a\\b`; and 160 bytes behind a path of 101 do not fit into the buffer. -/
theorem createFileName_doubled :
    createFileName nameBuffer [92, 97] [92, 92, 98] =
        .ok ([92, 97, 92, 98] ++ 0 :: replicate 255 0, 5) ∧
      ¬ JoinsPath [92, 97] [92, 92, 98] ∧
      createFileName nameBuffer (92 :: replicate 100 97) (replicate 160 98) =
        .error .outOfBounds := by
  have hrun : createFileName nameBuffer [92, 97] [92, 92, 98] =
      .ok ([92, 97, 92, 98] ++ 0 :: replicate 255 0, 5) := by
    decide +kernel
  refine ⟨hrun, ?_, by decide +kernel⟩
  rintro ⟨rest, hjoins⟩
  rw [hrun] at hjoins
  have hlength : 5 = (joinedPath [92, 97] [92, 92, 98]).length :=
    congrArg Prod.snd (Except.ok.inj hjoins)
  exact absurd hlength (by decide)

end NtfsDxe
