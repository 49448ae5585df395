import NtfsDxe.Record.AddResident

/-! # The operations on a record keep its layout

Making room and filling it, resizing a record or a value, and adding a resident
attribute keep a record well formed and all the other attributes as they are.
If they fail then the record is as it was, with one exception: if there is no
memory to enter a new attribute into the attribute list, then the attribute is
taken out again, but its instance number has been used. A search stays in the record if its
attributes do.
-/

namespace NtfsDxe

open Foundation LittleEndian List

section

variable (m hdr : Buffer) (attrs : List Buffer) (term : Buffer)

/-- Room is made at any place and filled by an attribute that belongs there. -/
def RoomKept : Prop :=
  ∀ pre post size, attrs = pre ++ post → size + 7 < 2 ^ 32 →
    ((makeRoomForAttr m (hdr.length + pre.flatten.length) size).1 = m ∧
      (makeRoomForAttr m (hdr.length + pre.flatten.length) size).2 = .error (.errno .enospc) ∧
      bytesAllocated m < bytesInUse m + align8 size) ∨
    ((makeRoomForAttr m (hdr.length + pre.flatten.length) size).2 = .ok () ∧
      ∀ b, AttrBytes b → b.length = align8 size → SortedByType (pre ++ [b] ++ post) →
        ∃ slack', RecordLayout
          (splice (makeRoomForAttr m (hdr.length + pre.flatten.length) size).1
            (hdr.length + pre.flatten.length) b)
          (setBytesInUse hdr (bytesInUse m + align8 size)) (pre ++ [b] ++ post) term slack')

def ResizeKept : Prop :=
  ∀ pre a post newSize, attrs = pre ++ [a] ++ post → bytesInUse m + newSize + 7 < 2 ^ 32 →
    (∃ status, attrRecordResize m (hdr.length + pre.flatten.length) newSize = (m, status) ∧
      status ≠ .ok ∧ a.length < align8 newSize) ∨
    ∃ m', attrRecordResize m (hdr.length + pre.flatten.length) newSize = (m', .ok) ∧
      RecordResized m hdr pre a post term (align8 newSize) m'

def ValueResizeKept : Prop :=
  ∀ pre a post newSize, attrs = pre ++ [a] ++ post → ResidentBytes a →
    bytesInUse m + read a 20 2 + newSize + 14 < 2 ^ 32 →
    (∃ status, residentAttrValueResize m (hdr.length + pre.flatten.length) newSize = (m, status) ∧
      status ≠ .ok ∧ a.length < align8 (read a 20 2 + newSize)) ∨
    ∃ m' a' slack',
      residentAttrValueResize m (hdr.length + pre.flatten.length) newSize = (m', .ok) ∧
      ValueResized a newSize a' ∧
      RecordLayout m' (setBytesInUse hdr (bytesInUse m - a.length + a'.length))
        (pre ++ [a'] ++ post) term slack'

/-- A resident attribute is added, and an attribute that has been added is removed again. -/
def AddKept : Prop :=
  ∀ (env : AttrEnv) (ni ni' : RecordInode) type name val dataFlags r, env.ListKept type →
    ni.mrec = m → AddArgs type name val →
    residentAttrRecordAdd env ni type name val dataFlags = (ni', r) →
    AddOutcome env m hdr attrs term type name val dataFlags ni'.mrec r ∧
    ∀ pos, r = .ok pos → ∃ m'' slack'', attrRecordResize ni'.mrec pos 0 = (m'', .ok) ∧
      RecordLayout m'' (write hdr 40 2 (read hdr 40 2 + 1)) attrs term slack''

end

/-- The header of a record with 80 of 256 bytes in use. -/
def sampleHeader : Buffer :=
  replicate 20 0 ++ [48, 0, 1, 0, 80, 0, 0, 0, 0, 1, 0, 0] ++ replicate 16 0

/-- A resident attribute list without a value. -/
def sampleAttr : Buffer := [0x20, 0, 0, 0, 24, 0, 0, 0] ++ replicate 12 0 ++ [24, 0, 0, 0]

def sampleTerm : Buffer := [0xff, 0xff, 0xff, 0xff, 0, 0, 0, 0]

def sampleMrec : Buffer := sampleHeader ++ ([sampleAttr].flatten ++ (sampleTerm ++
    replicate 176 0))

lemma sampleMrec_layout :
    RecordLayout sampleMrec sampleHeader [sampleAttr] sampleTerm (replicate 176 0) where
  bytes_eq := rfl
  header := by decide
  attrs_offset := by decide
  in_use := by decide
  in_use_le := by decide
  allocated_le := by decide +kernel
  allocated_lt := by decide
  attr_bytes := by
    intro a ha
    rw [mem_singleton.mp ha]
    exact ⟨by decide, by decide, by decide, by decide⟩
  sorted := pairwise_singleton _ _
  term_length := rfl
  term_type := by decide

/-- An inode whose attribute list cannot be extended for want of memory. -/
def fullListEnv : AttrEnv where
  hasAttrdef := true
  upcase := []
  hasMemory := true
  hasAttrList := true
  hasListMemory := false
  listInRecord := true
  extendAttrList := fun m _ => (m, .ok ())

def sampleInode : RecordInode where
  mrec := sampleMrec
  dataSize := 0
  allocatedSize := 0
  knownSize := false
  dirty := false

def mftRecordCheck (mftRecordSize : Nat) (m : Buffer) : Bool :=
  read m 0 4 == 0x454c4946 && bytesAllocated m == mftRecordSize &&
    decide (attrsOffset m ≤ mftRecordSize)

section Inside

variable (upcase : List UInt16) (ic : CaseMode) (m : Buffer)

/-- What is read to compare the name of the attribute at `a` lies in the record. -/
def NameInside (a : Nat) : AttrName → Prop
  | .null _ => True
  | .unnamed => a + 10 ≤ m.length
  | name => a + 12 ≤ m.length ∧ a + read m (a + 10) 2 +
      2 * unitsRead upcase m name.chars (a + read m (a + 10) 2) (read m (a + 9) 1) ≤ m.length

def NameMatches (a : Nat) : AttrName → Prop
  | .null _ => True
  | .unnamed => read m (a + 9) 1 = 0
  | name => namesFullCollate upcase ic name.chars
      (storedName m (a + read m (a + 10) 2) (read m (a + 9) 1)) = .eq

/-- What is read to compare the value of the attribute at `a` lies in the record. -/
def ValueInside (a : Nat) : Option Buffer → Prop
  | none => True
  | some val => a + 22 ≤ m.length ∧
      a + read m (a + 20) 2 + min val.length (read m (a + 16) 4) ≤ m.length

variable (type : Nat) (name : AttrName) (val : Option Buffer)

/-- The attributes from a position on lie in the record as far as a search reads them: up to
the one that is behind the record, that has a greater type or marks the end, that has no
length, with which an enumeration ends, or with which the comparison ends. -/
inductive AttrsInside : Nat → Prop
  | behind : bytesAllocated m < a → AttrsInside a
  | greater : a + 4 ≤ m.length → (type ≠ atUnused ∧ type < read m a 4) ∨ read m a 4 = atEnd →
      AttrsInside a
  | ends : a + 8 ≤ m.length → read m (a + 4) 4 = 0 ∨ type = atUnused → AttrsInside a
  | other : a + 8 ≤ m.length → read m a 4 ≠ type → AttrsInside (a + read m (a + 4) 4) →
      AttrsInside a
  | compared : a + 8 ≤ m.length → read m a 4 = type → NameInside upcase m a name →
      (NameMatches upcase ic m a name → ValueInside m a val) →
      (attrNameStep upcase ic m a name val = .ok .next → AttrsInside (a + read m (a + 4) 4)) →
      AttrsInside a

variable {upcase ic m type name val}

lemma readAt_eq_error (h : ¬ pos + n ≤ m.length) : readAt m pos n = .error .outOfBounds := if_neg h

lemma attrValueStep_inside_iff :
    attrValueStep m a val ≠ .error .outOfBounds ↔ ValueInside m a val := by
  cases val with
  | none => exact iff_of_true (fun h => by cases h) trivial
  | some val =>
    rw [ValueInside, attrValueStep]
    by_cases hfields : a + 22 ≤ m.length
    · simp only [readAt_eq (by omega : a + 20 + 2 ≤ m.length),
        readAt_eq (by omega : a + 16 + 4 ≤ m.length), bind, Except.bind, bytesAt]
      by_cases hinside : a + read m (a + 20) 2 + min val.length (read m (a + 16) 4) ≤ m.length
      · rw [if_pos hinside]
        refine iff_of_true ?_ ⟨hfields, hinside⟩
        dsimp only
        split_ifs <;> exact fun h => (by cases h)
      · rw [if_neg hinside]
        exact iff_of_false (fun h => h rfl) fun h => hinside h.2
    · refine iff_of_false (fun h => h ?_) fun h => hfields h.1
      rw [readAt_eq_error (by omega : ¬ a + 20 + 2 ≤ m.length)]
      rfl

lemma attrNameStep_inside_iff :
    attrNameStep upcase ic m a name val ≠ .error .outOfBounds ↔
      NameInside upcase m a name ∧ (NameMatches upcase ic m a name → ValueInside m a val) := by
  cases name with
  | null n =>
    refine attrValueStep_inside_iff.trans ?_
    exact ⟨fun h => ⟨trivial, fun _ => h⟩, fun h => h.2 trivial⟩
  | unnamed =>
    simp only [attrNameStep, NameInside, NameMatches]
    by_cases hfield : a + 10 ≤ m.length
    · simp only [readAt_eq (by omega : a + 9 + 1 ≤ m.length), bind, Except.bind]
      by_cases hlength : read m (a + 9) 1 = 0
      · rw [if_neg (not_not.mpr hlength), attrValueStep_inside_iff]
        exact ⟨fun h => ⟨hfield, fun _ => h⟩, fun h => h.2 hlength⟩
      · rw [if_pos hlength]
        exact iff_of_true (fun h => by cases h) ⟨hfield, fun h => absurd h hlength⟩
    · rw [readAt_eq_error (by omega : ¬ a + 9 + 1 ≤ m.length)]
      exact iff_of_false (fun h => h rfl) fun h => hfield h.1
  | indexI30 | other units =>
    simp only [attrNameStep, NameInside, NameMatches]
    by_cases hfields : a + 12 ≤ m.length
    · simp only [readAt_eq (by omega : a + 10 + 2 ≤ m.length),
        readAt_eq (by omega : a + 9 + 1 ≤ m.length), bind, Except.bind, bytesAt]
      split_ifs with hinside
      · dsimp only
        split
        next hcollate =>
          refine iff_of_true (fun h => by cases h) ⟨⟨hfields, hinside⟩, fun h => ?_⟩
          rw [hcollate] at h
          cases h
        next hcollate =>
          refine iff_of_true (fun h => by cases h) ⟨⟨hfields, hinside⟩, fun h => ?_⟩
          rw [hcollate] at h
          cases h
        next hcollate =>
          rw [attrValueStep_inside_iff]
          exact ⟨fun h => ⟨⟨hfields, hinside⟩, fun _ => h⟩, fun h => h.2 hcollate⟩
      · exact iff_of_false (fun h => h rfl) fun h => hinside h.1.2
    · rw [readAt_eq_error (by omega : ¬ a + 10 + 2 ≤ m.length)]
      exact iff_of_false (fun h => h rfl) fun h => hfields h.1.1

lemma readAt_eq_ok (h : readAt m pos n = .ok x) : pos + n ≤ m.length ∧ x = read m pos n := by
  unfold readAt at h
  split_ifs at h with hin
  cases h
  exact ⟨hin, rfl⟩

lemma readAt_error (h : readAt m pos n = .error e) : ¬ pos + n ≤ m.length ∧ e = .outOfBounds := by
  unfold readAt at h
  split_ifs at h with hin
  cases h
  exact ⟨hin, rfl⟩

/-- What is known of an attribute at which the search does not end by its position or type. -/
lemma AttrsInside.round (h : AttrsInside upcase ic m type name val a)
    (hin : ¬ bytesAllocated m < a)
    (hgo : ¬ ((type ≠ atUnused ∧ type < read m a 4) ∨ read m a 4 = atEnd)) :
    a + 8 ≤ m.length ∧ (¬ (read m (a + 4) 4 = 0 ∨ type = atUnused) →
      (read m a 4 = type → attrNameStep upcase ic m a name val ≠ .error .outOfBounds) ∧
      (read m a 4 ≠ type ∨ attrNameStep upcase ic m a name val = .ok .next →
        AttrsInside upcase ic m type name val (a + read m (a + 4) 4))) := by
  cases h with
  | behind h => exact absurd h hin
  | greater _ h => exact absurd h hgo
  | ends ha h => exact ⟨ha, fun hnot => absurd h hnot⟩
  | other ha hother hrest => exact ⟨ha, fun _ => ⟨fun h => absurd h hother, fun _ => hrest⟩⟩
  | compared ha hsame hname hvalue hrest =>
    refine ⟨ha, fun _ => ⟨fun _ => attrNameStep_inside_iff.mpr ⟨hname, hvalue⟩, ?_⟩⟩
    exact fun h => hrest (h.resolve_left fun hother => hother hsame)

end Inside

/-- A record whose first attribute would lie behind its end. -/
def emptyMrec : Buffer :=
  [0x46, 0x49, 0x4c, 0x45] ++ replicate 16 0 ++ [0, 4] ++ replicate 6 0 ++ [0, 4, 0, 0] ++
    replicate 992 0

end NtfsDxe
