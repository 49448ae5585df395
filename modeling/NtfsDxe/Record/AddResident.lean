import NtfsDxe.Record.Layout

/-! # Adding a resident attribute

A new attribute is put before the first one that has to come after it, so the
attributes stay ordered by their types. If there is an attribute list and it
cannot be extended, then the attribute is removed again; only the number of the
next instance remembers it.
-/

namespace NtfsDxe

open Foundation LittleEndian List RecordInode

/-! ## The place of an attribute -/

section Find

variable {m hdr term slack : Buffer} {pre post : List Buffer} {upcase : List UInt16} {ic : CaseMode}

lemma readAt_eq (h : pos + n ≤ m.length) : readAt m pos n = .ok (read m pos n) :=
  if_pos h

structure PlaceFor (type : Nat) (pre post : List Buffer) : Prop where
  before : ∀ a ∈ pre, read a 0 4 ≤ type
  after : ∀ a ∈ post, type ≤ read a 0 4

/-- An attribute that is found has the type, and the position that a search returns as `absent`
is a place for the type. -/
def FoundPlace (hdr : Buffer) (attrs : List Buffer) (type : Nat) : FindResult → Prop
  | .found pos => ∃ pre a post, attrs = pre ++ [a] ++ post ∧
      pos = hdr.length + pre.flatten.length ∧ read a 0 4 = type
  | .corrupt => False
  | .absent pos => ∃ pre post, attrs = pre ++ post ∧ pos = hdr.length + pre.flatten.length ∧
      PlaceFor type pre post

lemma attrFindFrom_end (h : RecordLayout m hdr pre term slack) :
    attrFindFrom upcase ic m type name val (hdr.length + pre.flatten.length) =
      .ok (.absent (hdr.length + pre.flatten.length)) := by
  have hle := h.in_use_le
  have hbuffer := h.allocated_le
  rw [← h.bytesAllocated_eq] at hle hbuffer
  have hread : readAt m (hdr.length + pre.flatten.length) 4 = .ok atEnd := by
    have hterm := read_third hdr pre.flatten slack (by rw [h.term_length]; omega : 0 + 4 ≤
      term.length)
    rw [add_zero, h.term_type, ← h.bytes_eq] at hterm
    rw [readAt_eq (by omega), hterm]
  rw [attrFindFrom, dif_neg (by omega), hread]
  exact if_pos (.inr rfl)

/-- A search goes on behind attributes of smaller or the same type. -/
lemma attrFindFrom_place (htype : type ≠ atUnused)
    (h : RecordLayout m hdr (pre ++ post) term slack) (hpre : ∀ a ∈ pre, read a 0 4 ≤ type)
    {r : FindResult}
    (hr : attrFindFrom upcase ic m type name val (hdr.length + pre.flatten.length) = .ok r) :
    FoundPlace hdr (pre ++ post) type r := by
  induction post generalizing pre r with
  | nil =>
    rw [append_nil] at h
    rw [attrFindFrom_end h] at hr
    obtain rfl := Except.ok.inj hr
    exact ⟨pre, [], rfl, rfl, hpre, fun _ ha => by cases ha⟩
  | cons a post ih =>
    rw [append_cons] at h ⊢
    have hattr := h.attrBytes
    have hge := hattr.length_ge
    have hle := h.in_use_le
    have hbuffer := h.allocated_le
    rw [← h.bytesAllocated_eq] at hle hbuffer
    rw [flatten_append, flatten_append, length_append, length_append] at hle
    have htypeRead : readAt m (hdr.length + pre.flatten.length) 4 = .ok (read a 0 4) := by
      have hread := h.read_attr (by omega : 0 + 4 ≤ a.length)
      rw [add_zero] at hread
      rw [readAt_eq (by omega), hread]
    have hlengthRead : readAt m (hdr.length + pre.flatten.length + 4) 4 = .ok a.length := by
      rw [readAt_eq (by omega), h.read_attr (by omega), hattr.length_eq]
    have hafter : ∀ b ∈ post, read a 0 4 ≤ read b 0 4 := by
      have hsorted := h.sorted
      rw [SortedByType, append_assoc, pairwise_append] at hsorted
      exact (pairwise_cons.mp hsorted.2.1).1
    have hhere : type ≤ read a 0 4 → FoundPlace hdr (pre ++ [a] ++ post) type
        (.absent (hdr.length + pre.flatten.length)) := by
      intro hle
      refine ⟨pre, a :: post, append_assoc _ _ _, rfl, hpre, fun b hb => ?_⟩
      rcases mem_cons.mp hb with rfl | hb
      · exact hle
      · exact le_trans hle (hafter b hb)
    have hnext : read a 0 4 ≤ type → ∀ r, attrFindFrom upcase ic m type name val
        (hdr.length + pre.flatten.length + a.length) = .ok r →
        FoundPlace hdr (pre ++ [a] ++ post) type r := by
      intro hle r hr
      refine ih h (fun b hb => ?_) ?_
      · rcases mem_append.mp hb with hb | hb
        · exact hpre b hb
        · rw [mem_singleton.mp hb]
          exact hle
      · rw [flatten_append, flatten_singleton, length_append, ← add_assoc]
        exact hr
    rw [attrFindFrom, dif_neg (by omega), htypeRead] at hr
    dsimp only at hr
    by_cases hbehind : (type ≠ atUnused ∧ type < read a 0 4) ∨ read a 0 4 = atEnd
    · rw [if_pos hbehind] at hr
      obtain rfl := Except.ok.inj hr
      rcases hbehind with ⟨-, hlt⟩ | hend
      · exact hhere (le_of_lt hlt)
      · exact absurd hend hattr.type_ne
    rw [if_neg hbehind, hlengthRead] at hr
    dsimp only at hr
    have hle : read a 0 4 ≤ type := by
      by_contra hgt
      exact hbehind (.inl ⟨htype, not_le.mp hgt⟩)
    rw [dif_neg (by omega), if_neg htype] at hr
    by_cases hother : read a 0 4 ≠ type
    · rw [if_pos hother] at hr
      exact hnext hle r hr
    rw [if_neg hother] at hr
    cases hstep : attrNameStep upcase ic m (hdr.length + pre.flatten.length) name val with
    | error e =>
      rw [hstep] at hr
      cases hr
    | ok step =>
      rw [hstep] at hr
      cases step with
      | found =>
        obtain rfl := Except.ok.inj hr
        exact ⟨pre, a, post, rfl, rfl, not_not.mp hother⟩
      | absent =>
        obtain rfl := Except.ok.inj hr
        exact hhere (le_of_eq (not_not.mp hother).symm)
      | next => exact hnext hle r hr

/-- `x` fails only by reading outside the record. -/
def FailsOutside {α : Type} (x : Except Failure α) : Prop := ∀ e, x = .error e → e = .outOfBounds

namespace FailsOutside

variable {α β : Type}

lemma ok (a : α) : FailsOutside (.ok a) := fun _ h => by cases h

lemma outside : FailsOutside (.error .outOfBounds : Except Failure α) := fun _ h => by
  cases h
  rfl

lemma ite [Decidable p] (hx : FailsOutside x) (hy : FailsOutside y) :
    FailsOutside (if p then x else y) := by
  split
  · exact hx
  · exact hy

lemma bind (hx : FailsOutside x) (hf : ∀ a, FailsOutside (f a)) : FailsOutside (x >>= f) := by
  cases x with
  | error e =>
    intro e' h
    cases h
    exact hx e rfl
  | ok a => exact hf a

end FailsOutside

lemma readAt_outside : FailsOutside (readAt m pos n) := .ite (.ok _) .outside

lemma attrValueStep_outside : FailsOutside (attrValueStep m a val) := by
  cases val with
  | none => exact .ok _
  | some val =>
    exact readAt_outside.bind fun _ => readAt_outside.bind fun _ =>
      (FailsOutside.ite (.ok _) .outside).bind fun _ => .ite (.ok _) (.ite (.ok _) (.ok _))

lemma attrNameStep_outside : FailsOutside (attrNameStep upcase ic m a name val) := by
  cases name with
  | null n => exact attrValueStep_outside
  | unnamed => exact readAt_outside.bind fun _ => .ite (.ok _) attrValueStep_outside
  | indexI30 | other units =>
    refine readAt_outside.bind fun _ => readAt_outside.bind fun _ =>
      (FailsOutside.ite (.ok _) .outside).bind fun chars => ?_
    split
    · exact .ok _
    · exact .ok _
    · exact attrValueStep_outside

/-- A search fails only by reading outside the record. -/
lemma attrFindFrom_outside : FailsOutside (attrFindFrom upcase ic m type name val a) := by
  intro e h
  fun_induction attrFindFrom upcase ic m type name val a
  case case2 hread =>
    cases h
    exact readAt_outside _ hread
  case case4 hread =>
    cases h
    exact readAt_outside _ hread
  case case7 ih => exact ih h
  case case8 hstep =>
    cases h
    exact attrNameStep_outside _ hstep
  case case11 ih => exact ih h
  all_goals cases h

end Find

/-! ## The new attribute -/

lemma AttrName.bytes_length (name : AttrName) : name.bytes.length = 2 * name.chars.length := by
  rw [AttrName.bytes]
  simp [mul_comm]

structure NewResident (type : Nat) (name : AttrName) (val : AttrValue) (dataFlags inst : Nat)
    (b : Buffer) : Prop where
  attrBytes : AttrBytes b
  type_eq : read b 0 4 = type
  resident : read b 8 1 = 0
  name_length : read b 9 1 = name.nameLen
  flags : read b 12 2 = dataFlags % 2 ^ 16
  inst_eq : read b 14 2 = inst
  value : attrValue b = val.bytes
  name_eq : name.nameLen ≠ 0 → (b.drop (read b 10 2)).take (2 * name.nameLen) = name.bytes

/-- Arguments for which no size wraps around. -/
structure AddArgs (type : Nat) (name : AttrName) (val : AttrValue) : Prop where
  type_lt : type < atEnd
  name_lt : name.nameLen < 256
  size_lt : val.size + 1024 < 2 ^ 32

variable {name : AttrName}

lemma AddArgs.bounds (h : AddArgs type name val) :
    name.nameLen < 256 ∧ val.size + 1024 < 2 ^ 32 ∧
      (name.nameLen * 2 ≤ align8 (name.nameLen * 2) ∧
        align8 (name.nameLen * 2) < name.nameLen * 2 + 8) ∧
      val.size ≤ align8 val.size ∧ align8 val.size < val.size + 8 := by
  have hname := h.name_lt
  have hsize := h.size_lt
  exact ⟨hname, hsize, align8_bounds (by omega), align8_bounds (by omega)⟩

lemma AddArgs.length_eq (h : AddArgs type name val) :
    residentLength name val.size = 24 + align8 (name.nameLen * 2) + align8 val.size := by
  obtain ⟨hname, hsize, hbounds, hbounds'⟩ := h.bounds
  exact Nat.mod_eq_of_lt (by omega)

lemma AddArgs.align8_length (h : AddArgs type name val) :
    align8 (residentLength name val.size) = residentLength name val.size := by
  obtain ⟨hname, hsize, hbounds, hbounds'⟩ := h.bounds
  have hlength := h.length_eq
  have hdvd := align8_dvd (name.nameLen * 2)
  have hdvd' := align8_dvd val.size
  exact align8_of_dvd (by omega) (by omega)

lemma residentFields_apart (type : Nat) (name : AttrName) {length : Nat}
    (size dataFlags inst : Nat) :
    (residentFields type name size dataFlags inst length).Pairwise Field.Apart ∧
      ∀ f ∈ residentFields type name size dataFlags inst length, f.off + f.size ≤ 22 := by
  constructor
  · simp [residentFields, Field.Apart]
  · simp [residentFields]

def newAttr (gap : Buffer) (type : Nat) (name : AttrName) (val : AttrValue)
    (dataFlags inst length : Nat) : Buffer :=
  let b := writeFields gap 0 (residentFields type name val.size dataFlags inst length)
  let b := splice b (24 + align8 (name.nameLen * 2)) val.bytes
  let b := write b 22 1 (if type = atFileName then 1 else 0)
  if name.nameLen ≠ 0 then splice b 24 name.bytes else b

section New

variable {gap : Buffer} {type : Nat} {name : AttrName} {val : AttrValue} {dataFlags inst : Nat}

section

variable (hargs : AddArgs type name val) (hchars : name.nameLen = name.chars.length)
  (hgap : gap.length = residentLength name val.size)
include hargs hchars hgap

lemma newAttr_parts :
    (newAttr gap type name val dataFlags inst gap.length).length = gap.length ∧
    (∀ f ∈ residentFields type name val.size dataFlags inst gap.length,
      read (newAttr gap type name val dataFlags inst gap.length) f.off f.size =
        f.val % 256 ^ f.size) ∧
    ((newAttr gap type name val dataFlags inst gap.length).drop
      (24 + align8 (name.nameLen * 2))).take val.size = val.bytes ∧
    (name.nameLen ≠ 0 → ((newAttr gap type name val dataFlags inst gap.length).drop 24).take
      (2 * name.nameLen) = name.bytes) := by
  obtain ⟨hname, hsize, hbounds, hbounds'⟩ := hargs.bounds
  have hlength := hargs.length_eq
  have hnameBytes := name.bytes_length
  rw [← hchars] at hnameBytes
  have hvalBytes : val.bytes.length = val.size := rfl
  obtain ⟨happart, hfields⟩ := residentFields_apart type name val.size dataFlags inst
  have hfit : ∀ f ∈ residentFields type name val.size dataFlags inst gap.length,
      f.off + f.size ≤ gap.length := fun f hf => le_trans (hfields f hf) (by omega)
  -- one stage after the other
  have hlen₀ := writeFields_length hfit
  have hread₀ := fun f hf => @read_writeFields_of_mem gap _ f hfit happart hf
  rw [newAttr]
  generalize writeFields gap 0 (residentFields type name val.size dataFlags inst gap.length) = b₀
    at hlen₀ hread₀ ⊢
  have hfit₁ : 24 + align8 (name.nameLen * 2) + val.bytes.length ≤ b₀.length := by omega
  have hlen₁ := splice_length hfit₁
  have hvalue₁ := @drop_take_splice_self b₀ val.bytes (24 + align8 (name.nameLen * 2)) (by omega)
  have hread₁ : ∀ f ∈ residentFields type name val.size dataFlags inst gap.length,
      read (splice b₀ (24 + align8 (name.nameLen * 2)) val.bytes) f.off f.size =
        f.val % 256 ^ f.size := by
    intro f hf
    have hf' := hfields f hf
    rw [read_splice_of_disjoint hfit₁ (by omega), hread₀ f hf]
  generalize splice b₀ (24 + align8 (name.nameLen * 2)) val.bytes = b₁ at hlen₁ hvalue₁ hread₁ ⊢
  have hfit₂ : 22 + 1 ≤ b₁.length := by omega
  have hlen₂ := write_length (if type = atFileName then 1 else 0) hfit₂
  have hvalue₂ : ((write b₁ 22 1 (if type = atFileName then 1 else 0)).drop
      (24 + align8 (name.nameLen * 2))).take val.bytes.length = val.bytes := by
    rw [write, drop_take_splice_of_disjoint (by rw [bytes_length]; omega)
      (by rw [bytes_length]; omega), hvalue₁]
  have hread₂ : ∀ f ∈ residentFields type name val.size dataFlags inst gap.length,
      read (write b₁ 22 1 (if type = atFileName then 1 else 0)) f.off f.size =
        f.val % 256 ^ f.size := by
    intro f hf
    have hf' := hfields f hf
    rw [read_write_of_disjoint _ hfit₂ (by omega), hread₁ f hf]
  generalize write b₁ 22 1 (if type = atFileName then 1 else 0) = b₂ at hlen₂ hvalue₂ hread₂ ⊢
  by_cases hnamed : name.nameLen ≠ 0
  · have hfit₃ : 24 + name.bytes.length ≤ b₂.length := by omega
    rw [if_pos hnamed]
    refine ⟨by rw [splice_length hfit₃]; omega, fun f hf => ?_, ?_, fun _ => ?_⟩
    · have hf' := hfields f hf
      rw [read_splice_of_disjoint hfit₃ (by omega), hread₂ f hf]
    · rw [drop_take_splice_of_disjoint hfit₃ (by omega)]
      exact hvalue₂
    · have hself := @drop_take_splice_self b₂ name.bytes 24 (by omega)
      rw [hnameBytes] at hself
      exact hself
  · rw [if_neg hnamed]
    exact ⟨by omega, hread₂, hvalue₂, fun h => absurd h hnamed⟩

lemma newAttr_spec (hinst : inst < 2 ^ 16) :
    NewResident type name val dataFlags inst
      (newAttr gap type name val dataFlags inst gap.length) := by
  obtain ⟨hname, hsize, hbounds, hbounds'⟩ := hargs.bounds
  have htype := hargs.type_lt
  have hlength := hargs.length_eq
  have hdvd := align8_dvd (name.nameLen * 2)
  have hdvd' := align8_dvd val.size
  rw [atEnd] at htype
  obtain ⟨hlen, hread, hvalue, hnameBytes⟩ :=
    @newAttr_parts gap type name val dataFlags inst hargs hchars hgap
  generalize newAttr gap type name val dataFlags inst gap.length =
    b at hlen hread hvalue hnameBytes ⊢
  have hexact : ∀ off n v, (⟨off, n, v⟩ : Field) ∈
      residentFields type name val.size dataFlags inst gap.length → v < 256 ^ n →
      read b off n = v :=
    fun off n v hf hv => (hread ⟨off, n, v⟩ hf).trans (Nat.mod_eq_of_lt hv)
  have htypeRead : read b 0 4 = type := hexact 0 4 type (by simp [residentFields]) (by omega)
  have hlengthRead : read b 4 4 = gap.length :=
    hexact 4 4 gap.length (by simp [residentFields]) (by omega)
  have hsizeRead : read b 16 4 = val.size :=
    hexact 16 4 val.size (by simp [residentFields]) (by omega)
  have hoffsetRead : read b 20 2 = 24 + align8 (name.nameLen * 2) := by
    have hfield := hread ⟨20, 2, gap.length - align8 val.size⟩ (by simp [residentFields])
    dsimp only at hfield
    omega
  refine
    { attrBytes := ⟨by rw [hlengthRead, hlen], by omega, by omega, by
        rw [atEnd]
        omega⟩
      type_eq := htypeRead
      resident := hread ⟨8, 1, 0⟩ (by simp [residentFields])
      name_length := hexact 9 1 name.nameLen (by simp [residentFields]) (by omega)
      flags := hread ⟨12, 2, dataFlags⟩ (by simp [residentFields])
      inst_eq := hexact 14 2 inst (by simp [residentFields]) (by omega)
      value := by rw [attrValue, hoffsetRead, hsizeRead, hvalue]
      name_eq := fun hnamed => ?_ }
  have hfield := hread ⟨10, 2, if name.nameLen ≠ 0 then 24 else 0⟩ (by simp [residentFields])
  rw [if_pos hnamed] at hfield
  rw [hfield]
  exact hnameBytes hnamed

/-- The fields, the value and the name are set in the gap. -/
lemma setupResident_eq (hheader : 42 ≤ hdr.length) (front rest : Buffer) :
    setupResident (hdr ++ (front ++ (gap ++ rest))) (hdr.length + front.length) type name val
      dataFlags gap.length =
    .ok (hdr ++ (front ++ (newAttr gap type name val dataFlags (read hdr 40 2) gap.length ++
      rest))) := by
  obtain ⟨hname, hsize, hbounds, hbounds'⟩ := hargs.bounds
  have hlength := hargs.length_eq
  have hnameBytes := name.bytes_length
  have hvalBytes : val.bytes.length = val.size := rfl
  have hinst : nextAttrInstance (hdr ++ (front ++ (gap ++ rest))) = read hdr 40 2 := by
    rw [nextAttrInstance, read_append_left _ (by omega)]
  obtain ⟨happart, hfields⟩ := residentFields_apart type name val.size dataFlags (read hdr 40 2)
  have hfit : ∀ f ∈ residentFields type name val.size dataFlags (read hdr 40 2) gap.length,
      f.off + f.size ≤ gap.length := fun f hf => le_trans (hfields f hf) (by omega)
  have hlen₀ := writeFields_length hfit
  have hoffset := read_writeFields_of_mem hfit happart
    (by simp [residentFields] : (⟨20, 2, gap.length - align8 val.size⟩ : Field) ∈ _)
  rw [setupResident, hinst]
  rw [writeFields_third _ _ hfit, newAttr]
  generalize writeFields gap 0
    (residentFields type name val.size dataFlags (read hdr 40 2) gap.length) = b₀ at hlen₀ hoffset ⊢
  dsimp only at hoffset
  have hoffset' : valueOffset (hdr ++ (front ++ (b₀ ++ rest))) (hdr.length + front.length) =
      24 + align8 (name.nameLen * 2) := by
    rw [valueOffset, read_third _ _ _ (by omega)]
    omega
  have hfit₁ : 24 + align8 (name.nameLen * 2) + val.bytes.length ≤ b₀.length := by omega
  have hpoke : poke (hdr ++ (front ++ (b₀ ++ rest)))
      (hdr.length + front.length + (24 + align8 (name.nameLen * 2))) val.bytes =
      .ok (hdr ++ (front ++ (splice b₀ (24 + align8 (name.nameLen * 2)) val.bytes ++ rest))) := by
    rw [poke, if_pos (by simp only [length_append]; omega), splice_third _ _ _ hfit₁]
  have hlen₁ := splice_length hfit₁
  rw [hoffset', hpoke]
  dsimp only
  generalize splice b₀ (24 + align8 (name.nameLen * 2)) val.bytes = b₁ at hlen₁ ⊢
  have hfit₂ : 22 + 1 ≤ b₁.length := by omega
  have hlen₂ := write_length (if type = atFileName then 1 else 0) hfit₂
  rw [write_third _ _ _ _ hfit₂]
  generalize write b₁ 22 1 (if type = atFileName then 1 else 0) = b₂ at hlen₂ ⊢
  by_cases hnamed : name.nameLen ≠ 0
  · have hfit₃ : 24 + name.bytes.length ≤ b₂.length := by omega
    rw [if_pos hnamed, if_pos hnamed, poke, if_pos (by simp only [length_append]; omega),
      splice_third _ _ _ hfit₃]
  · rw [if_neg hnamed, if_neg hnamed]

end

end New

/-! ## Removing an attribute -/

/-- The header after `ntfs_make_room_for_attr` and the new number of the next instance. -/
def addedHeader (hdr : Buffer) (biu : Nat) : Buffer :=
  write (setBytesInUse hdr biu) 40 2 (read hdr 40 2 + 1)

lemma setBytesInUse_addedHeader (hheader : 42 ≤ hdr.length) :
    setBytesInUse (addedHeader hdr biu) (read hdr 24 4) = write hdr 40 2 (read hdr 40 2 + 1) := by
  have hlength := write_length biu (by omega : 24 + 4 ≤ hdr.length)
  rw [addedHeader, setBytesInUse, setBytesInUse, write_comm (by omega) (by omega) (by omega),
    write_write_self (by omega), write_read_self (by omega)]

lemma attrRecordResize_zero (h : RecordLayout m hdr (pre ++ [a] ++ post) term slack) :
    ∃ m' slack', attrRecordResize m (hdr.length + pre.flatten.length) 0 = (m', .ok) ∧
      RecordLayout m' (setBytesInUse hdr (bytesInUse m - a.length)) (pre ++ post) term slack' := by
  have hinUse := h.in_use_le
  have hallocated := h.allocated_lt
  rw [← h.bytesInUse_eq] at hinUse
  have hzero : align8 0 = 0 := rfl
  rcases @attrRecordResize_spec m hdr term slack a pre post h 0 (by omega) with
    ⟨status, -, -, hgrows⟩ | ⟨m', hresize, mid, slack', hmid, hlayout⟩
  · omega
  · rcases hmid with ⟨rfl, -⟩ | ⟨a', rfl, ha'⟩
    · rw [append_nil] at hlayout
      exact ⟨m', slack', hresize, hlayout⟩
    · have hpos := ha'.attrBytes.pos
      have hlength := ha'.length_eq
      omega

/-! ## Adding an attribute -/

/-- A resident attribute has been added at `pos`. -/
structure AttrAdded (m hdr : Buffer) (attrs : List Buffer) (term : Buffer) (type : Nat)
    (name : AttrName) (val : AttrValue) (dataFlags pos : Nat) (pre post : List Buffer)
    (b slack' m' : Buffer) : Prop where
  attrs_eq : attrs = pre ++ post
  pos_eq : pos = hdr.length + pre.flatten.length
  new : NewResident type name val dataFlags (read hdr 40 2) b
  length_eq : b.length = residentLength name val.size
  layout : RecordLayout m' (addedHeader hdr (bytesInUse m + b.length)) (pre ++ [b] ++ post) term
    slack'

/-- The attributes with one more at its place are ordered. -/
lemma PlaceFor.sorted (hplace : PlaceFor type pre post) (hsorted : SortedByType (pre ++ post))
    (hb : read b 0 4 = type) : SortedByType (pre ++ [b] ++ post) := by
  rw [SortedByType, pairwise_append] at hsorted
  obtain ⟨hpre, hpost, hcross⟩ := hsorted
  rw [SortedByType, append_assoc, pairwise_append, singleton_append, pairwise_cons]
  refine ⟨hpre, ⟨fun c hc => by rw [hb]; exact hplace.after c hc, hpost⟩, fun c hc d hd => ?_⟩
  rcases mem_cons.mp hd with rfl | hd
  · rw [hb]
    exact hplace.before c hc
  · exact hcross c hc d hd

section Add

/-- Room is made and the attribute is set up, or there is not enough space. -/
lemma RecordLayout.setup (h : RecordLayout m hdr (pre ++ post) term slack)
    (hargs : AddArgs type name val) (hchars : name.nameLen = name.chars.length)
    (hplace : PlaceFor type pre post) (dataFlags : Nat) :
    (makeRoomForAttr m (hdr.length + pre.flatten.length) (residentLength name val.size) =
      (m, .error (.errno .enospc)) ∧
        bytesAllocated m < bytesInUse m + residentLength name val.size) ∨
    ∃ m₁ m₂ b slack', makeRoomForAttr m (hdr.length + pre.flatten.length)
        (residentLength name val.size) = (m₁, .ok ()) ∧
      setupResident m₁ (hdr.length + pre.flatten.length) type name val dataFlags
        (residentLength name val.size) = .ok m₂ ∧
      AttrAdded m hdr (pre ++ post) term type name val dataFlags (hdr.length + pre.flatten.length)
        pre post b slack' (write m₂ 40 2 (nextAttrInstance m₂ + 1)) := by
  have hheader := h.header
  have haligned := hargs.align8_length
  rcases makeRoomForAttr_spec h with
    ⟨hfull, hless⟩ | ⟨gap, slack', hroom, hgap, hslack, hfits⟩
  · exact .inl ⟨hfull, haligned ▸ hless⟩
  right
  rw [haligned] at hgap hfits
  have hbiu := h.bytesInUse_eq
  have hhdr := h.headerFor hfits
  have hinst : read (setBytesInUse hdr (bytesInUse m + residentLength name val.size)) 40 2 =
      read hdr 40 2 := read_write_of_disjoint _ (by omega) (by omega)
  have hnew := @newAttr_spec gap type name val dataFlags (read hdr 40 2) hargs hchars hgap
    (read_lt 2)
  have hnewLength := (@newAttr_parts gap type name val dataFlags (read hdr 40 2) hargs hchars
    hgap).1
  have hsetup := @setupResident_eq gap type name val dataFlags hargs hchars hgap
    (setBytesInUse hdr (bytesInUse m + residentLength name val.size))
    (by rw [hhdr.length_eq]; exact hheader) pre.flatten (post.flatten ++ (term ++ slack'))
  rw [hhdr.length_eq, hgap] at hsetup
  rw [hgap] at hnew hnewLength
  have hroomEq : RoomMade hdr pre post term (residentLength name val.size) gap slack' =
      setBytesInUse hdr (bytesInUse m + residentLength name val.size) ++
        (pre.flatten ++ (gap ++ (post.flatten ++ (term ++ slack')))) := by
    rw [RoomMade, haligned, hbiu]
  rw [hroomEq] at hroom
  refine ⟨_, _, newAttr gap type name val dataFlags (read hdr 40 2) (residentLength name val.size),
    slack', hroom, hsetup, rfl, rfl, hnew, hnewLength, ?_⟩
  have hfilled := @RecordLayout.fillRoom m hdr term slack pre post h
    (residentLength name val.size) gap slack' (by omega) hslack (by rwa [haligned])
    (newAttr gap type name val dataFlags (read hdr 40 2) (residentLength name val.size))
    hnew.attrBytes (by rw [hnewLength, haligned]) (hplace.sorted h.sorted hnew.type_eq)
  rw [haligned] at hfilled
  have hadded := hfilled.setHeader ((HeaderFor.self hfilled).setInstance
    (by rw [hhdr.length_eq]; exact hheader) (read hdr 40 2 + 1))
  rw [nextAttrInstance, read_append_left _ (by rw [hhdr.length_eq]; omega), hinst,
    write_append_left _ _ (by rw [hhdr.length_eq]; omega), hnewLength]
  rw [flatten_append, flatten_append, flatten_singleton] at hadded
  simpa only [addedHeader, append_assoc] using hadded

/-- The attribute list is not resized for an attribute of this type: there is no list, the
attribute is the list itself, or there is no memory for a longer one. -/
def AttrEnv.ListKept (env : AttrEnv) (type : Nat) : Prop :=
  env.hasAttrList = false ∨ type = atAttributeList ∨ env.hasListMemory = false

variable {env : AttrEnv} {ni ni' : RecordInode}

lemma AttrEnv.ListKept.listAttr (h : env.ListKept type) (m : Buffer) (a : Nat) :
    (env.listAttr m a type).1 = m ∧
      ∀ e, (env.listAttr m a type).2 = .error e → type ≠ atAttributeList ∧
        env.hasAttrList = true := by
  rw [AttrEnv.listAttr]
  by_cases hentry : type ≠ atAttributeList ∧ env.hasAttrList = true
  · have hmemory : env.hasListMemory = false := by
      rcases h with hnone | htype | hmemory
      · rw [hnone] at hentry
        cases hentry.2
      · exact absurd htype hentry.1
      · exact hmemory
    rw [if_pos hentry, attrlistEntryAdd, if_pos hmemory]
    exact ⟨rfl, fun _ _ => hentry⟩
  · rw [if_neg hentry]
    exact ⟨rfl, fun _ he => by cases he⟩

/-- What `ntfs_resident_attr_record_add` does to a record. -/
def AddOutcome (env : AttrEnv) (m hdr : Buffer) (attrs : List Buffer) (term : Buffer) (type : Nat)
    (name : AttrName) (val : AttrValue) (dataFlags : Nat) (m' : Buffer) :
    Except Failure Nat → Prop
  | .ok pos => ∃ pre post b slack',
      AttrAdded m hdr attrs term type name val dataFlags pos pre post b slack' m'
  | .error _ => m' = m ∨ (type ≠ atAttributeList ∧ env.hasAttrList = true ∧
      ∃ slack', RecordLayout m' (write hdr 40 2 (read hdr 40 2 + 1)) attrs term slack')

lemma AttrAdded.remove (h : RecordLayout m hdr attrs term slack)
    (hadded : AttrAdded m hdr attrs term type name val dataFlags pos pre post b slack' m') :
    ∃ m'' slack'', attrRecordResize m' pos 0 = (m'', .ok) ∧
      RecordLayout m'' (write hdr 40 2 (read hdr 40 2 + 1)) attrs term slack'' := by
  have hheader := h.header
  have hlength : (addedHeader hdr (bytesInUse m + b.length)).length = hdr.length := by
    have hinner := write_length (bytesInUse m + b.length) (by omega : 24 + 4 ≤ hdr.length)
    rw [addedHeader, setBytesInUse, write_length _ (by omega), hinner]
  obtain ⟨m'', slack'', hresize, hlayout⟩ := attrRecordResize_zero hadded.layout
  have hbiu : bytesInUse m' - b.length = read hdr 24 4 := by
    rw [hadded.layout.bytesInUse_eq, h.in_use, hadded.attrs_eq]
    simp only [flatten_append, flatten_singleton, length_append]
    omega
  rw [hlength, ← hadded.pos_eq] at hresize
  rw [hbiu, setBytesInUse_addedHeader hheader, ← hadded.attrs_eq] at hlayout
  exact ⟨m'', slack'', hresize, hlayout⟩

lemma AttrName.nameLen_eq (h : ¬ (name.nameLen ≠ 0 ∧ name = .null name.nameLen)) :
    name.nameLen = name.chars.length := by
  cases name with
  | null n =>
    by_contra hne
    exact h ⟨hne, rfl⟩
  | unnamed => rfl
  | indexI30 => rfl
  | other chars => rfl

lemma RecordInode.setSizes_mrec : (ni.setSizes m type name size).mrec = m := by
  rw [setSizes]
  split <;> rfl

section

variable (h : RecordLayout ni.mrec hdr (pre ++ post) term slack) (hargs : AddArgs type name val)
  (hchars : name.nameLen = name.chars.length) (hplace : PlaceFor type pre post)
include h hargs hchars hplace

lemma RecordInode.roomMade_spec (hlist : env.ListKept type)
    (hr : ni.roomMade env (hdr.length + pre.flatten.length) type name val dataFlags
      (makeRoomForAttr ni.mrec (hdr.length + pre.flatten.length) (residentLength name val.size)) =
      (ni', r)) :
    AddOutcome env ni.mrec hdr (pre ++ post) term type name val dataFlags ni'.mrec r := by
  rcases h.setup hargs hchars hplace dataFlags with
    ⟨hfull, -⟩ | ⟨m₁, m₂, b, slack', hroom, hsetup, hadded⟩
  · rw [hfull] at hr
    obtain ⟨rfl, rfl⟩ := Prod.mk.inj hr
    exact .inl rfl
  rw [hroom, roomMade, hsetup, attrSetUp] at hr
  have hsame := hlist.listAttr (write m₂ 40 2 (nextAttrInstance m₂ + 1))
    (hdr.length + pre.flatten.length)
  rcases hcall : env.listAttr (write m₂ 40 2 (nextAttrInstance m₂ + 1))
    (hdr.length + pre.flatten.length) type with ⟨m₃, added⟩
  rw [hcall] at hsame hr
  rw [← hsame.1] at hadded
  cases added with
  | error e =>
    obtain ⟨rfl, rfl⟩ := Prod.mk.inj hr
    obtain ⟨m'', slack'', hresize, hlayout⟩ := hadded.remove h
    obtain ⟨hother, hattrList⟩ := hsame.2 e rfl
    refine .inr ⟨hother, hattrList, slack'', ?_⟩
    rw [hresize]
    exact hlayout
  | ok _ =>
    obtain ⟨rfl, rfl⟩ := Prod.mk.inj hr
    rw [setSizes_mrec]
    exact ⟨pre, post, b, slack', hadded⟩

end

section

variable (h : RecordLayout ni.mrec hdr attrs term slack)
  (hr : residentAttrRecordAdd env ni type name val dataFlags = (ni', r))
include h hr

/-- Adding an attribute fails before there is a place for it, and then not for want of space,
or it makes room at the place. -/
lemma residentAttrRecordAdd_cases :
    (ni' = ni ∧ ∃ e, r = .error e ∧ e ≠ .errno .enospc) ∨
      ∃ pre post, attrs = pre ++ post ∧ name.nameLen = name.chars.length ∧
        PlaceFor type pre post ∧
        ni.roomMade env (hdr.length + pre.flatten.length) type name val dataFlags
          (makeRoomForAttr ni.mrec (hdr.length + pre.flatten.length)
            (residentLength name val.size)) = (ni', r) := by
  have hfails : ∀ e, e ≠ .errno .enospc → (ni, .error e) = (ni', r) →
      ni' = ni ∧ ∃ e, r = .error e ∧ e ≠ .errno .enospc := by
    intro e he heq
    obtain ⟨rfl, rfl⟩ := Prod.mk.inj heq
    exact ⟨rfl, e, rfl, he⟩
  rw [residentAttrRecordAdd] at hr
  by_cases hnull : name.nameLen ≠ 0 ∧ name = .null name.nameLen
  · rw [if_pos hnull] at hr
    exact .inl (hfails _ (by decide) hr)
  rw [if_neg hnull] at hr
  cases hresident : attrCanBeResident env type with
  | error e =>
    rw [hresident] at hr
    refine .inl (hfails _ ?_ hr)
    rw [attrCanBeResident] at hresident
    split_ifs at hresident <;> cases hresident <;> decide
  | ok _ =>
    have htype : type ≠ atUnused := by
      intro hzero
      rw [attrCanBeResident, if_pos (.inr hzero)] at hresident
      cases hresident
    rw [hresident] at hr
    by_cases hmemory : env.hasMemory = false
    · rw [if_pos hmemory] at hr
      exact .inl (hfails _ (by decide) hr)
    rw [if_neg hmemory] at hr
    cases hfind : attrFind env.upcase .caseSensitive ni.mrec type name val.pointer with
    | error e =>
      rw [hfind, attrFindFrom_outside e hfind] at hr
      exact .inl (hfails _ (by decide) hr)
    | ok found =>
      have hplace : FoundPlace hdr attrs type found := by
        have hstart := hfind
        rw [attrFind, h.attrsOffset_eq] at hstart
        exact @attrFindFrom_place ni.mrec hdr term slack [] attrs _ _ type name _ htype h
          (fun _ ha => by cases ha) found hstart
      rw [hfind] at hr
      cases found with
      | found pos => exact .inl (hfails _ (by decide) hr)
      | corrupt => exact .inl (hfails _ (by decide) hr)
      | absent pos =>
        obtain ⟨pre, post, hattrs, rfl, hplace⟩ := hplace
        exact .inr ⟨pre, post, hattrs, AttrName.nameLen_eq hnull, hplace, hr⟩

lemma residentAttrRecordAdd_spec (hlist : env.ListKept type) (hargs : AddArgs type name val) :
    AddOutcome env ni.mrec hdr attrs term type name val dataFlags ni'.mrec r := by
  rcases residentAttrRecordAdd_cases h hr with
    ⟨rfl, e, rfl, -⟩ | ⟨pre, post, rfl, hchars, hplace, hroom⟩
  · exact .inl rfl
  · exact roomMade_spec h hargs hchars hplace hlist hroom

end

end Add

end NtfsDxe
