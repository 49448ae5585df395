import NtfsDxe.Record.MftRecord

/-! # The layout of an mft record

A record is its header, the attributes one after the other, the terminator and
unused bytes. The functions that make room for an attribute or resize one
replace a part of the list of attributes and keep all the others.
-/

namespace NtfsDxe

open Foundation LittleEndian List

/-! ## Alignment -/

lemma align8_eq (h : size + 7 < 2 ^ 32) : align8 size = (size + 7) / 8 * 8 := by
  exact congrArg (· / 8 * 8) (Nat.mod_eq_of_lt h)

lemma align8_bounds (h : size + 7 < 2 ^ 32) : size ≤ align8 size ∧ align8 size < size + 8 := by
  rw [align8_eq h]
  omega

lemma align8_dvd (size : Nat) : 8 ∣ align8 size := ⟨(size + 7) % 2 ^ 32 / 8, mul_comm _ _⟩

lemma align8_of_dvd (h : size + 7 < 2 ^ 32) (hdvd : 8 ∣ size) : align8 size = size := by
  rw [align8_eq h]
  omega

/-! ## Well-formed records -/

/-- The bytes of an attribute: their number is in the length field, and a positive multiple
of eight. -/
structure AttrBytes (a : Buffer) : Prop where
  length_eq : read a 4 4 = a.length
  pos : 0 < a.length
  aligned : 8 ∣ a.length
  type_ne : read a 0 4 ≠ atEnd

lemma AttrBytes.length_ge (h : AttrBytes a) : 8 ≤ a.length :=
  Nat.le_of_dvd h.pos h.aligned

def SortedByType (attrs : List Buffer) : Prop := attrs.Pairwise fun a b => read a 0 4 ≤ read b 0 4

/-- The parts of a well-formed record. -/
structure RecordLayout (m hdr : Buffer) (attrs : List Buffer) (term slack : Buffer) : Prop where
  bytes_eq : m = hdr ++ (attrs.flatten ++ (term ++ slack))
  header : 42 ≤ hdr.length
  attrs_offset : read hdr 20 2 = hdr.length
  in_use : read hdr 24 4 = hdr.length + attrs.flatten.length + 8
  in_use_le : hdr.length + attrs.flatten.length + 8 ≤ read hdr 28 4
  allocated_le : read hdr 28 4 ≤ m.length
  allocated_lt : read hdr 28 4 < 2 ^ 31
  attr_bytes : ∀ a ∈ attrs, AttrBytes a
  sorted : SortedByType attrs
  term_length : term.length = 8
  term_type : read term 0 4 = atEnd

namespace RecordLayout

variable {m hdr term slack : Buffer}

section

variable (h : RecordLayout m hdr attrs term slack)
include h

lemma attrsOffset_eq : attrsOffset m = hdr.length := by
  have hheader := h.header
  rw [attrsOffset, h.bytes_eq, read_append_left _ (by omega), h.attrs_offset]

lemma bytesInUse_eq : bytesInUse m = hdr.length + attrs.flatten.length + 8 := by
  have hheader := h.header
  rw [bytesInUse, h.bytes_eq, read_append_left _ (by omega), h.in_use]

lemma bytesAllocated_eq : bytesAllocated m = read hdr 28 4 := by
  have hheader := h.header
  rw [bytesAllocated, h.bytes_eq, read_append_left _ (by omega)]

lemma slack_length : m.length = hdr.length + attrs.flatten.length + 8 + slack.length := by
  rw [h.bytes_eq, length_append, length_append, length_append, h.term_length]
  omega

end

/-- The record around some of its attributes. -/
lemma split_eq (h : RecordLayout m hdr (pre ++ mid ++ post) term slack) :
    m = (hdr ++ pre.flatten) ++ (mid.flatten ++ ((post.flatten ++ term) ++ slack)) := by
  rw [h.bytes_eq, flatten_append, flatten_append]
  simp only [append_assoc]

end RecordLayout

/-! ## The header -/

/-- The header of a record in which `biu` bytes are in use, otherwise with the sizes of `hdr`. -/
structure HeaderFor (hdr : Buffer) (biu : Nat) (hdr' : Buffer) : Prop where
  length_eq : hdr'.length = hdr.length
  attrs_offset : read hdr' 20 2 = read hdr 20 2
  in_use : read hdr' 24 4 = biu
  allocated : read hdr' 28 4 = read hdr 28 4

lemma HeaderFor.setBytesInUse (hlen : 42 ≤ hdr.length) (hbiu : biu < 2 ^ 32) :
    HeaderFor hdr biu (setBytesInUse hdr biu) where
  length_eq := write_length _ (by omega)
  attrs_offset := read_write_of_disjoint _ (by omega) (by omega)
  in_use := by
    rw [NtfsDxe.setBytesInUse, read_write_self _ (by omega)]
    exact Nat.mod_eq_of_lt hbiu
  allocated := read_write_of_disjoint _ (by omega) (by omega)

lemma HeaderFor.setInstance (hlen : 42 ≤ hdr.length)
    (h : HeaderFor hdr biu hdr') (v : Nat) : HeaderFor hdr biu (write hdr' 40 2 v) := by
  have hlen' := h.length_eq
  exact
    { length_eq := (write_length _ (by omega)).trans hlen'
      attrs_offset := (read_write_of_disjoint _ (by omega) (by omega)).trans h.attrs_offset
      in_use := (read_write_of_disjoint _ (by omega) (by omega)).trans h.in_use
      allocated := (read_write_of_disjoint _ (by omega) (by omega)).trans h.allocated }

lemma RecordLayout.replace {m hdr term slack : Buffer} {pre mid post : List Buffer}
    (h : RecordLayout m hdr (pre ++ mid ++ post) term slack) {hdr' slack' : Buffer}
    {mid' : List Buffer}
    (hhdr : HeaderFor hdr (hdr.length + (pre ++ mid' ++ post).flatten.length + 8) hdr')
    (hattrs : ∀ a ∈ mid', AttrBytes a) (hsorted : SortedByType (pre ++ mid' ++ post))
    (hfits : hdr.length + (pre ++ mid' ++ post).flatten.length + 8 ≤ bytesAllocated m)
    (hlength : mid'.flatten.length + slack'.length = mid.flatten.length + slack.length) :
    RecordLayout (hdr' ++ ((pre ++ mid' ++ post).flatten ++ (term ++ slack'))) hdr'
      (pre ++ mid' ++ post) term slack' where
  bytes_eq := rfl
  header := by rw [hhdr.length_eq]; exact h.header
  attrs_offset := by rw [hhdr.attrs_offset, hhdr.length_eq]; exact h.attrs_offset
  in_use := by rw [hhdr.in_use, hhdr.length_eq]
  in_use_le := by rw [hhdr.length_eq, hhdr.allocated, ← h.bytesAllocated_eq]; exact hfits
  allocated_le := by
    have hle := h.allocated_le
    rw [h.slack_length] at hle
    rw [hhdr.allocated]
    refine le_trans hle (le_of_eq ?_)
    simp only [length_append, flatten_append, hhdr.length_eq, h.term_length]
    omega
  allocated_lt := by rw [hhdr.allocated]; exact h.allocated_lt
  attr_bytes := by
    intro a ha
    rw [append_assoc, mem_append, mem_append] at ha
    rcases ha with hpre | hmid | hpost
    · exact h.attr_bytes a (by simp [hpre])
    · exact hattrs a hmid
    · exact h.attr_bytes a (by simp [hpost])
  sorted := hsorted
  term_length := h.term_length
  term_type := h.term_type

/-- Another header with the same sizes. -/
lemma RecordLayout.setHeader {m hdr term slack : Buffer} {attrs : List Buffer}
    (h : RecordLayout m hdr attrs term slack) {hdr' : Buffer}
    (hhdr : HeaderFor hdr (hdr.length + attrs.flatten.length + 8) hdr') :
    RecordLayout (hdr' ++ (attrs.flatten ++ (term ++ slack))) hdr' attrs term slack := by
  have hreplace := @RecordLayout.replace m hdr term slack [] attrs [] (by simpa using h) hdr' slack
    attrs (by simpa using hhdr) h.attr_bytes (by simpa using h.sorted)
    (by simpa [h.bytesAllocated_eq] using h.in_use_le) rfl
  simpa using hreplace

lemma HeaderFor.self (h : RecordLayout m hdr attrs term slack) :
    HeaderFor hdr (hdr.length + attrs.flatten.length + 8) hdr := ⟨rfl, rfl, h.in_use, rfl⟩

/-! ## Moving the tail of a record -/

/-- The tail behind `mid` is moved so that `n` bytes are between it and `front`. -/
lemma memmove_tail (front mid tail slack : Buffer) (hfit : n ≤ mid.length + slack.length) :
    ∃ gap slack', memmove (front ++ (mid ++ (tail ++ slack))) (front.length + n)
        (front.length + mid.length) tail.length = .ok (front ++ (gap ++ (tail ++ slack'))) ∧
      gap = (mid ++ (tail ++ slack)).take n ∧ gap.length = n ∧
      n + slack'.length = mid.length + slack.length := by
  have htail : ((front ++ (mid ++ (tail ++ slack))).drop (front.length + mid.length)).take
      tail.length = tail := by
    rw [← drop_drop, drop_left, drop_left, take_left]
  refine ⟨_, (mid ++ (tail ++ slack)).drop (n + tail.length), ?_, rfl, ?_, ?_⟩
  · rw [memmove, if_pos (by simp only [length_append]; omega), htail, splice_append_right,
      splice, append_assoc]
  · simp only [length_take, length_append]
    omega
  · simp only [length_drop, length_append]
    omega

/-! ## Making room -/

/-- The header in which the number of bytes in use is `biu`. -/
lemma RecordLayout.headerFor (h : RecordLayout m hdr attrs term slack)
    (hbiu : biu ≤ bytesAllocated m) : HeaderFor hdr biu (setBytesInUse hdr biu) := by
  have hallocated := h.allocated_lt
  rw [h.bytesAllocated_eq] at hbiu
  exact .setBytesInUse h.header (by omega)

/-- What `ntfs_make_room_for_attr` leaves before the attributes `post`. -/
def RoomMade (hdr : Buffer) (pre post : List Buffer) (term : Buffer) (size : Nat)
    (gap slack' : Buffer) : Buffer :=
  setBytesInUse hdr (hdr.length + (pre ++ post).flatten.length + 8 + align8 size) ++
    (pre.flatten ++ (gap ++ (post.flatten ++ (term ++ slack'))))

section

variable {m hdr term slack : Buffer} {pre post : List Buffer}
  (h : RecordLayout m hdr (pre ++ post) term slack)
include h

/-- Room is made, or there is not enough space. -/
lemma makeRoomForAttr_spec :
    (makeRoomForAttr m (hdr.length + pre.flatten.length) size = (m, .error (.errno .enospc)) ∧
      bytesAllocated m < bytesInUse m + align8 size) ∨
    ∃ gap slack', makeRoomForAttr m (hdr.length + pre.flatten.length) size =
        (RoomMade hdr pre post term size gap slack', .ok ()) ∧ gap.length = align8 size ∧
      align8 size + slack'.length = slack.length ∧
      bytesInUse m + align8 size ≤ bytesAllocated m := by
  have hbiu := h.bytesInUse_eq
  have hle := h.in_use_le
  have hallocated := h.allocated_lt
  have hbuffer := h.allocated_le
  have hlength := h.slack_length
  have hheader := h.header
  rw [← h.bytesAllocated_eq] at hle hallocated hbuffer
  have hflat : (pre ++ post).flatten.length = pre.flatten.length + post.flatten.length := by
    rw [flatten_append, length_append]
  have hs32 : s32 (bytesInUse m) = bytesInUse m := s32_of_isS32 (isS32_iff.mpr (by omega))
  rw [makeRoomForAttr]
  rw [if_neg (by omega)]
  by_cases hzero : align8 size = 0
  · right
    refine ⟨[], slack, ?_, hzero.symm, by omega, by omega⟩
    rw [if_pos hzero, RoomMade, hzero, ← h.in_use, setBytesInUse,
      write_read_self (by omega), nil_append, ← append_assoc pre.flatten,
      ← flatten_append, ← h.bytes_eq]
  rw [if_neg hzero]
  by_cases hfull : bytesAllocated m < bytesInUse m + align8 size
  · left
    refine ⟨if_pos ?_, hfull⟩
    rcases lt_or_ge (bytesInUse m + align8 size) (2 ^ 32) with hlt | hge
    · exact .inl (lt_of_lt_of_eq hfull (Nat.mod_eq_of_lt hlt).symm)
    · exact .inr (by omega)
  · right
    have hsplit := @RecordLayout.split_eq m hdr term slack pre [] post (by simpa using h)
    obtain ⟨gap, slack', hmove, -, hgap, hslack⟩ := memmove_tail (hdr ++ pre.flatten) []
      (post.flatten ++ term) slack (by
        omega : align8 size ≤ _)
    refine ⟨gap, slack', ?_, hgap, ?_, not_lt.mp hfull⟩
    · have htail : bytesInUse m - (hdr.length + pre.flatten.length) =
          (post.flatten ++ term).length := by
        rw [length_append, h.term_length]
        omega
      have hfits : ¬ (bytesAllocated m < (bytesInUse m + align8 size) % 2 ^ 32 ∨
          bytesAllocated m < hdr.length + pre.flatten.length + align8 size) := by
        omega
      rw [length_append, length_nil, add_zero] at hmove
      rw [flatten_nil] at hsplit
      rw [← hsplit] at hmove
      rw [if_neg hfits, htail, hmove]
      dsimp only
      rw [hbiu, setBytesInUse, append_assoc, write_append_left _ _ (by omega),
        append_assoc post.flatten]
      rfl
    · rw [length_nil, zero_add] at hslack
      exact hslack

lemma RecordLayout.fillRoom {gap slack' : Buffer} (hgap : gap.length = align8 size)
    (hslack : align8 size + slack'.length = slack.length)
    (hfits : bytesInUse m + align8 size ≤ bytesAllocated m) {b : Buffer} (hb : AttrBytes b)
    (hlength : b.length = align8 size) (hsorted : SortedByType (pre ++ [b] ++ post)) :
    RecordLayout
      (splice (RoomMade hdr pre post term size gap slack') (hdr.length + pre.flatten.length) b)
      (setBytesInUse hdr (bytesInUse m + align8 size)) (pre ++ [b] ++ post) term slack' := by
  have hbiu := h.bytesInUse_eq
  have hhdr := h.headerFor hfits
  have hflat : hdr.length + (pre ++ [b] ++ post).flatten.length + 8 =
      bytesInUse m + align8 size := by
    rw [hbiu]
    simp only [flatten_append, flatten_singleton, length_append]
    omega
  have hreplace := @RecordLayout.replace m hdr term slack pre [] post (by simpa using h)
    (setBytesInUse hdr (bytesInUse m + align8 size)) slack' [b] (by rwa [hflat])
    (fun a ha => by rw [mem_singleton.mp ha]; exact hb) hsorted (by rwa [hflat])
    (by
      rw [flatten_singleton, flatten_nil, length_nil]
      omega)
  have hfilled : splice gap 0 b = b := by
    rw [splice, take_zero, nil_append, drop_of_length_le (by omega), append_nil]
  have hsplice := splice_third (setBytesInUse hdr (bytesInUse m + align8 size)) pre.flatten
    (post.flatten ++ (term ++ slack')) (by omega : 0 + b.length ≤ gap.length)
  rw [hhdr.length_eq, add_zero, hfilled] at hsplice
  rw [RoomMade, ← hbiu, hsplice]
  convert hreplace using 1
  simp only [flatten_append, flatten_singleton, append_assoc]

end

/-! ## Resizing a record -/

/-- The order depends on the types only. -/
lemma SortedByType.of_map_eq (h : SortedByType attrs)
    (htypes : attrs'.map (fun a => read a 0 4) = attrs.map fun a => read a 0 4) :
    SortedByType attrs' := by
  have hsorted := pairwise_map.mpr h
  rw [← htypes] at hsorted
  exact pairwise_map.mp hsorted

/-- An attribute whose record has another size: its bytes are kept as far as there is room. -/
structure AttrResized (a : Buffer) (size : Nat) (a' : Buffer) : Prop where
  attrBytes : AttrBytes a'
  length_eq : a'.length = size
  kept : ∀ k < min a.length size, k < 4 ∨ 8 ≤ k → a'[k]? = a[k]?

lemma AttrResized.type_eq (h : AttrResized a size a')
    (ha : AttrBytes a) : read a' 0 4 = read a 0 4 := by
  have hge := ha.length_ge
  have hge' := h.attrBytes.length_ge
  have hlength := h.length_eq
  apply read_congr
  intro k _ hk
  exact h.kept k (by omega) (.inl (by omega))

/-- The bytes in front of the moved tail, with the new length. -/
lemma attrResized_gap {a rest : Buffer} (ha : AttrBytes a) {size : Nat} (hsize : 8 ≤ size)
    (hdvd : 8 ∣ size) (hlt : size < 2 ^ 32) (hfit : size ≤ a.length + rest.length) :
    AttrResized a size (write ((a ++ rest).take size) 4 4 size) := by
  have hge := ha.length_ge
  have hlength : ((a ++ rest).take size).length = size := by
    rw [length_take, length_append]
    omega
  have hlength' : (write ((a ++ rest).take size) 4 4 size).length = size := by
    rw [write_length _ (by omega), hlength]
  have hkept : ∀ k < min a.length size, k < 4 ∨ 8 ≤ k →
      (write ((a ++ rest).take size) 4 4 size)[k]? = a[k]? := by
    intro k hk hout
    rw [write_getElem? (by omega) (by omega), getElem?_take_of_lt (by omega),
      getElem?_append_left (by omega)]
  have htype : read (write ((a ++ rest).take size) 4 4 size) 0 4 = read a 0 4 := by
    apply read_congr
    intro k _ hk
    exact hkept k (by omega) (.inl (by omega))
  refine ⟨⟨?_, by omega, by rwa [hlength'], by rw [htype]; exact ha.type_ne⟩, hlength', hkept⟩
  rw [read_write_self _ (by omega), hlength']
  exact Nat.mod_eq_of_lt hlt

section Resize

variable {m hdr term slack a : Buffer} {pre post : List Buffer}

section

variable (h : RecordLayout m hdr (pre ++ [a] ++ post) term slack)
include h

lemma RecordLayout.attr_eq :
    m = hdr ++ (pre.flatten ++ (a ++ (post.flatten ++ (term ++ slack)))) := by
  rw [h.bytes_eq, flatten_append, flatten_append, flatten_singleton]
  simp only [append_assoc]

lemma RecordLayout.read_attr (hfit : off + n ≤ a.length) :
    read m (hdr.length + pre.flatten.length + off) n = read a off n := by
  rw [h.attr_eq, read_third _ _ _ hfit]

lemma RecordLayout.attrBytes : AttrBytes a := h.attr_bytes a (by simp)

end

/-- What `ntfs_attr_record_resize` does to a record. -/
def RecordResized (m hdr : Buffer) (pre : List Buffer) (a : Buffer) (post : List Buffer)
    (term : Buffer) (size : Nat) (m' : Buffer) : Prop :=
  ∃ mid slack', (mid = [] ∧ size = 0 ∨ ∃ a', mid = [a'] ∧ AttrResized a size a') ∧
    RecordLayout m' (setBytesInUse hdr (bytesInUse m - a.length + size)) (pre ++ mid ++ post) term
      slack'

section

variable (h : RecordLayout m hdr (pre ++ [a] ++ post) term slack)
include h

lemma RecordLayout.resized {size : Nat} {mid : List Buffer} {slack' : Buffer}
    (hmid : mid.flatten.length = size)
    (hattr : mid = [] ∧ size = 0 ∨ ∃ a', mid = [a'] ∧ AttrResized a size a')
    (hfits : bytesInUse m - a.length + size ≤ bytesAllocated m)
    (hslack : size + slack'.length = a.length + slack.length) :
    RecordResized m hdr pre a post term size
      (setBytesInUse hdr (bytesInUse m - a.length + size) ++
        (pre.flatten ++ (mid.flatten ++ (post.flatten ++ (term ++ slack'))))) := by
  have hbiu := h.bytesInUse_eq
  rw [flatten_append, flatten_append, flatten_singleton, length_append, length_append] at hbiu
  have hflat : hdr.length + (pre ++ mid ++ post).flatten.length + 8 =
      bytesInUse m - a.length + size := by
    rw [flatten_append, flatten_append, length_append, length_append]
    omega
  have hattrs : ∀ b ∈ mid, AttrBytes b := by
    intro b hb
    rcases hattr with ⟨rfl, -⟩ | ⟨a', rfl, ha'⟩
    · cases hb
    · rw [mem_singleton.mp hb]
      exact ha'.attrBytes
  have hsorted : SortedByType (pre ++ mid ++ post) := by
    rcases hattr with ⟨rfl, -⟩ | ⟨a', rfl, ha'⟩
    · exact h.sorted.sublist (by simp)
    · refine h.sorted.of_map_eq ?_
      simp only [map_append, map_cons, ha'.type_eq h.attrBytes]
  refine ⟨mid, slack', hattr, ?_⟩
  have hreplace := @RecordLayout.replace m hdr term slack pre [a] post h _ slack' mid
    (by rw [hflat]; exact h.headerFor hfits) hattrs hsorted (by rwa [hflat])
    (by rw [hmid, flatten_singleton]; exact hslack)
  rw [flatten_append, flatten_append] at hreplace
  simpa only [append_assoc] using hreplace

/-- A record is resized, or there is not enough space. -/
lemma attrRecordResize_spec {newSize : Nat} (hsize : bytesInUse m + newSize + 7 < 2 ^ 32) :
    (∃ status, attrRecordResize m (hdr.length + pre.flatten.length) newSize = (m, status) ∧
      (status = .error (.errno .enospc) ∨ status = .filledMft) ∧ a.length < align8 newSize) ∨
    ∃ m', attrRecordResize m (hdr.length + pre.flatten.length) newSize = (m', .ok) ∧
      RecordResized m hdr pre a post term (align8 newSize) m' := by
  have hattr := h.attrBytes
  have hge := hattr.length_ge
  have hbiu := h.bytesInUse_eq
  rw [flatten_append, flatten_append, flatten_singleton, length_append, length_append] at hbiu
  have hlength := h.slack_length
  have hinUse := h.in_use_le
  have hallocated := h.allocated_le
  have hallocated' := h.allocated_lt
  rw [← h.bytesInUse_eq] at hinUse
  rw [← h.bytesAllocated_eq] at hinUse hallocated hallocated'
  have hheader := h.header
  have hbounds := align8_bounds (by omega : newSize + 7 < 2 ^ 32)
  have hattrSize : attrLength m (hdr.length + pre.flatten.length) = a.length := by
    rw [attrLength, h.read_attr (by omega), hattr.length_eq]
  rw [attrRecordResize]
  rw [hattrSize]
  by_cases hsame : align8 newSize = a.length
  · -- the length does not change
    right
    refine ⟨m, if_pos hsame, [a], slack, .inr ⟨a, rfl, hattr, hsame.symm, fun _ _ _ => rfl⟩, ?_⟩
    have hback : bytesInUse m - a.length + align8 newSize = read hdr 24 4 := by
      rw [h.in_use, ← h.bytesInUse_eq]
      omega
    rw [hback, setBytesInUse, write_read_self (by omega)]
    exact h
  rw [if_neg hsame]
  have hmuse : (bytesInUse m + (2 ^ 32 - a.length) + align8 newSize) % 2 ^ 32 =
      bytesInUse m - a.length + align8 newSize := by omega
  rw [hmuse]
  by_cases hfull : bytesAllocated m < bytesInUse m - a.length + align8 newSize
  · exact .inl ⟨_, if_pos hfull, .inl rfl, by omega⟩
  rw [if_neg hfull]
  by_cases hroot : attrType m (hdr.length + pre.flatten.length) = atIndexRoot ∧
      a.length < align8 newSize ∧
      bytesAllocated m < (bytesInUse m - a.length + align8 newSize + 120) % 2 ^ 32 ∧
      (bytesInUse m + 120) % 2 ^ 32 ≤ bytesAllocated m
  · exact .inl ⟨_, if_pos hroot, .inr rfl, hroot.2.1⟩
  rw [if_neg hroot, if_neg (by omega)]
  right
  rw [flatten_append, flatten_append, flatten_singleton, length_append, length_append] at hlength
  obtain ⟨gap, slack', hmove, hgap, hgapLength, hslack⟩ := memmove_tail (hdr ++ pre.flatten) a
    (post.flatten ++ term) slack (by omega : align8 newSize ≤ _)
  have hfront : (hdr ++ pre.flatten).length = hdr.length + pre.flatten.length := length_append
  have htail : bytesInUse m - (hdr.length + pre.flatten.length) - a.length =
      (post.flatten ++ term).length := by
    rw [length_append, h.term_length]
    omega
  have hm : hdr ++ pre.flatten ++ (a ++ (post.flatten ++ term ++ slack)) = m := by
    rw [h.attr_eq]
    simp only [append_assoc]
  rw [hfront, hm] at hmove
  rw [htail, hmove]
  dsimp only
  rw [setBytesInUse, append_assoc hdr, write_append_left _ _ (by omega), append_assoc
    post.flatten]
  have hdvd := align8_dvd newSize
  by_cases hlarge : 8 ≤ align8 newSize
  · have hhdr := write_length (bytesInUse m - a.length + align8 newSize)
      (by omega : 24 + 4 ≤ hdr.length)
    have hwrite := write_third (write hdr 24 4 (bytesInUse m - a.length + align8 newSize))
      pre.flatten (post.flatten ++ (term ++ slack')) (align8 newSize)
      (by omega : 4 + 4 ≤ gap.length)
    rw [hhdr] at hwrite
    refine ⟨_, by rw [if_pos hlarge, hwrite], ?_⟩
    have hresized := @attrResized_gap a (post.flatten ++ term ++ slack) hattr _ hlarge hdvd
      (by omega) (by simp only [length_append]; omega)
    rw [← hgap] at hresized
    have hlayout := @RecordLayout.resized m hdr term slack a pre post h _
      [write gap 4 4 (align8 newSize)] slack' (by rw [flatten_singleton,
        hresized.length_eq]) (.inr ⟨_, rfl, hresized⟩) (by omega) hslack
    rw [flatten_singleton] at hlayout
    exact hlayout
  · have hzero : align8 newSize = 0 := by omega
    have hnil : gap = [] := length_eq_zero_iff.mp (by omega)
    refine ⟨_, by rw [if_neg hlarge], ?_⟩
    rw [hnil]
    exact @RecordLayout.resized m hdr term slack a pre post h _ [] slack' hzero.symm
      (.inl ⟨rfl, hzero⟩) (by omega) hslack

/-- Changing an attribute behind its type and length. -/
lemma RecordLayout.setAttr (hlength : a'.length = a.length) (hhead : ∀ k < 8, a'[k]? = a[k]?) :
    RecordLayout (hdr ++ (pre.flatten ++ (a' ++ (post.flatten ++ (term ++ slack))))) hdr
      (pre ++ [a'] ++ post) term slack := by
  have hattr := h.attrBytes
  have htype : read a' 0 4 = read a 0 4 := read_congr fun k _ hk => hhead k (by omega)
  have hlen : read a' 4 4 = read a 4 4 := read_congr fun k _ hk => hhead k (by omega)
  have hattr' : AttrBytes a' :=
    ⟨by rw [hlen, hlength, hattr.length_eq], by rw [hlength]; exact hattr.pos,
      by rw [hlength]; exact hattr.aligned, by rw [htype]; exact hattr.type_ne⟩
  have hflat : (pre ++ [a'] ++ post).flatten.length = (pre ++ [a] ++ post).flatten.length := by
    simp only [flatten_append, flatten_singleton, length_append, hlength]
  have hreplace := @RecordLayout.replace m hdr term slack pre [a] post h hdr slack [a']
    ⟨rfl, rfl, by rw [hflat, h.in_use], rfl⟩
    (fun b hb => by rw [mem_singleton.mp hb]; exact hattr')
    (h.sorted.of_map_eq (by simp only [map_append, map_cons, htype]))
    (by rw [hflat, h.bytesAllocated_eq]; exact h.in_use_le)
    (by rw [flatten_singleton, flatten_singleton, hlength])
  rw [flatten_append, flatten_append, flatten_singleton] at hreplace
  simpa only [append_assoc] using hreplace

end

/-! ## Resizing a value -/

/-- A resident attribute: its value is behind the header and inside the record. -/
structure ResidentBytes (a : Buffer) : Prop where
  header : 24 ≤ read a 20 2
  value_le : read a 20 2 + read a 16 4 ≤ a.length

def attrValue (a : Buffer) : Buffer := (a.drop (read a 20 2)).take (read a 16 4)

/-- A resident attribute whose value has another size. The old value is kept as far as it
fits, and continued by zeros. -/
structure ValueResized (a : Buffer) (newSize : Nat) (a' : Buffer) : Prop where
  attrBytes : AttrBytes a'
  length_eq : a'.length = align8 (read a 20 2 + newSize)
  value_offset : read a' 20 2 = read a 20 2
  value_length : read a' 16 4 = newSize
  value : attrValue a' = (attrValue a).take newSize ++ replicate (newSize - read a 16 4) 0
  kept : ∀ k < read a 20 2, k < 4 ∨ 8 ≤ k → k < 16 ∨ 20 ≤ k → a'[k]? = a[k]?

lemma ResidentBytes.value_length (h : ResidentBytes a) : (attrValue a).length = read a 16 4 := by
  have hvalue := h.value_le
  rw [attrValue, length_take, length_drop]
  omega

def clearedValue (a a' : Buffer) (newSize : Nat) : Buffer :=
  if read a 16 4 < newSize then
    splice a' (read a 20 2 + read a 16 4) (replicate (newSize - read a 16 4) 0)
  else a'

lemma clearedValue_getElem? (ha : ResidentBytes a)
    (h : AttrResized a size a') (hsize : read a 20 2 + newSize ≤ size) :
    (clearedValue a a' newSize).length = size ∧
    (∀ k < read a 20 2, (clearedValue a a' newSize)[k]? = a'[k]?) ∧
    ∀ k < newSize, (clearedValue a a' newSize)[read a 20 2 + k]? =
      if k < read a 16 4 then a[read a 20 2 + k]? else some 0 := by
  have hlength := h.length_eq
  have hheader := ha.header
  have hvalue := ha.value_le
  have hkept : ∀ k, k < read a 16 4 → k < newSize → a'[read a 20 2 + k]? = a[read a 20 2 + k]? :=
    fun k hk hk' => h.kept _ (by omega) (.inr (by omega))
  rw [clearedValue]
  by_cases hgrows : read a 16 4 < newSize
  · rw [if_pos hgrows]
    have hfit : read a 20 2 + read a 16 4 +
        (replicate (newSize - read a 16 4) (0 : UInt8)).length ≤ a'.length := by
      rw [length_replicate]
      omega
    refine ⟨by rw [splice_length hfit, hlength], fun k hk => ?_, fun k hk => ?_⟩
    · rw [splice_getElem? hfit, if_neg (by omega)]
    · rw [splice_getElem? hfit, length_replicate]
      by_cases hold : k < read a 16 4
      · rw [if_neg (by omega), if_pos hold, hkept k hold hk]
      · rw [if_pos (by omega), if_neg hold, getElem?_replicate, if_pos (by omega)]
  · rw [if_neg hgrows]
    refine ⟨hlength, fun k _ => rfl, fun k hk => ?_⟩
    rw [if_pos (by omega), hkept k (by omega) hk]

lemma valueResized (hres : ResidentBytes a) (hsize : read a 20 2 + newSize + 7 < 2 ^ 32)
    (h : AttrResized a (align8 (read a 20 2 + newSize)) a') :
    ValueResized a newSize (write (clearedValue a a' newSize) 16 4 newSize) := by
  have hheader := hres.header
  have hvalue := hres.value_le
  have hvalueLen := hres.value_length
  have hbounds := align8_bounds hsize
  have hlength := h.length_eq
  obtain ⟨hlen, hfront, hback⟩ := clearedValue_getElem? hres h hbounds.1
  have hfit : 16 + 4 ≤ (clearedValue a a' newSize).length := by omega
  have hlen' : (write (clearedValue a a' newSize) 16 4 newSize).length =
      align8 (read a 20 2 + newSize) := by
    rw [write_length _ hfit, hlen]
  have hsame : ∀ k < read a 20 2, k < 16 ∨ 20 ≤ k →
      (write (clearedValue a a' newSize) 16 4 newSize)[k]? = a'[k]? := by
    intro k hk hout
    rw [write_getElem? hfit (by omega), hfront k hk]
  have hlenField : read (write (clearedValue a a' newSize) 16 4 newSize) 4 4 = read a' 4 4 :=
    read_congr fun k _ hk => hsame k (by omega) (by omega)
  have htype : read (write (clearedValue a a' newSize) 16 4 newSize) 0 4 = read a' 0 4 :=
    read_congr fun k _ hk => hsame k (by omega) (by omega)
  have hoffset : read (write (clearedValue a a' newSize) 16 4 newSize) 20 2 = read a 20 2 :=
    read_congr fun k hk hk' => by
      rw [hsame k (by omega) (by omega), h.kept k (by omega) (by omega)]
  have hvalueLength : read (write (clearedValue a a' newSize) 16 4 newSize) 16 4 = newSize := by
    rw [read_write_self _ (by omega)]
    exact Nat.mod_eq_of_lt (by omega)
  refine ⟨⟨?_, ?_, ?_, ?_⟩, hlen', hoffset, hvalueLength, ?_, fun k hk hout hout' => ?_⟩
  · rw [hlenField, hlen', h.attrBytes.length_eq, hlength]
  · omega
  · rw [hlen']
    exact align8_dvd _
  · rw [htype]
    exact h.attrBytes.type_ne
  · -- byte by byte
    rw [attrValue, hoffset, hvalueLength]
    apply ext_getElem?
    intro k
    by_cases hk : k < newSize
    · rw [getElem?_take_of_lt hk, getElem?_drop, write_getElem? hfit (by omega),
        hback k hk]
      by_cases hold : k < read a 16 4
      · rw [if_pos hold, getElem?_append_left (by rw [length_take]; omega),
          getElem?_take_of_lt hk, attrValue, getElem?_take_of_lt hold,
          getElem?_drop]
      · rw [if_neg hold, getElem?_append_right (by rw [length_take]; omega),
          getElem?_replicate, if_pos (by rw [length_take]; omega)]
    · rw [getElem?_eq_none (by rw [length_take]; omega), getElem?_eq_none (by
        rw [length_append, length_take, length_replicate]
        omega)]
  · rw [hsame k hk hout', h.kept k (by omega) hout]

/-- A value is resized, or there is not enough space. -/
lemma residentAttrValueResize_spec (h : RecordLayout m hdr (pre ++ [a] ++ post) term slack)
    (hres : ResidentBytes a) (hsize : bytesInUse m + read a 20 2 + newSize + 14 < 2 ^ 32) :
    (∃ status, residentAttrValueResize m (hdr.length + pre.flatten.length) newSize = (m, status) ∧
      (status = .error (.errno .enospc) ∨ status = .filledMft) ∧
      a.length < align8 (read a 20 2 + newSize)) ∨
    ∃ m' a' slack',
      residentAttrValueResize m (hdr.length + pre.flatten.length) newSize = (m', .ok) ∧
      ValueResized a newSize a' ∧
      RecordLayout m' (setBytesInUse hdr (bytesInUse m - a.length + a'.length))
        (pre ++ [a'] ++ post) term slack' := by
  have hheader := hres.header
  have hvalue := hres.value_le
  have hbounds := align8_bounds (by omega : read a 20 2 + newSize + 7 < 2 ^ 32)
  have hoffset : valueOffset m (hdr.length + pre.flatten.length) = read a 20 2 := by
    rw [valueOffset, h.read_attr (by omega)]
  have htwice : align8 (align8 (read a 20 2 + newSize)) = align8 (read a 20 2 + newSize) :=
    align8_of_dvd (by omega) (align8_dvd _)
  rw [residentAttrValueResize, hoffset]
  rcases attrRecordResize_spec h
    (by omega : bytesInUse m + align8 (read a 20 2 + newSize) + 7 < 2 ^ 32) with
    ⟨status, hresize, hstatus, hgrows⟩ | ⟨m₁, hresize, mid, slack', hmid, h₁⟩
  · left
    rw [htwice] at hgrows
    refine ⟨status, ?_, hstatus, hgrows⟩
    rw [hresize]
    rcases hstatus with rfl | rfl <;> rfl
  · right
    rw [htwice] at hmid h₁
    obtain ⟨a₁, rfl, hresized⟩ : ∃ a', mid = [a'] ∧
        AttrResized a (align8 (read a 20 2 + newSize)) a' := by
      rcases hmid with ⟨-, hzero⟩ | hmid
      · omega
      · exact hmid
    have hresult := valueResized hres (by omega) hresized
    have hlength := hresized.length_eq
    have hhdr := write_length (bytesInUse m - a.length + align8 (read a 20 2 + newSize))
      (by have := h.header; omega : 24 + 4 ≤ hdr.length)
    rw [← setBytesInUse] at hhdr
    have hvalueLength : valueLength m₁ (hdr.length + pre.flatten.length) = read a 16 4 := by
      rw [valueLength, ← hhdr, h₁.read_attr (by omega)]
      exact read_congr fun k _ hk => hresized.kept k (by omega) (by omega)
    have hvalueOffset : valueOffset m₁ (hdr.length + pre.flatten.length) = read a 20 2 := by
      rw [valueOffset, ← hhdr, h₁.read_attr (by omega)]
      exact read_congr fun k _ hk => hresized.kept k (by omega) (by omega)
    obtain ⟨hclearedLength, hfront, -⟩ := clearedValue_getElem? hres hresized hbounds.1
    have hhead : ∀ k < 8, (write (clearedValue a a₁ newSize) 16 4 newSize)[k]? = a₁[k]? := by
      intro k hk
      rw [write_getElem? (by omega) (by omega), hfront k (by omega)]
    refine ⟨_, _, slack', ?_, hresult, by
      rw [hresult.length_eq]
      exact h₁.setAttr (hresult.length_eq.trans hlength.symm) hhead⟩
    have hwrite := write_third
      (setBytesInUse hdr (bytesInUse m - a.length + align8 (read a 20 2 + newSize))) pre.flatten
      (post.flatten ++ (term ++ slack')) newSize
      (by omega : 16 + 4 ≤ (clearedValue a a₁ newSize).length)
    rw [hhdr] at hwrite
    rw [hresize]
    dsimp only
    rw [hvalueLength, hvalueOffset]
    rw [← hwrite]
    by_cases hgrows : read a 16 4 < newSize
    · have hpoke := splice_third
        (setBytesInUse hdr (bytesInUse m - a.length + align8 (read a 20 2 + newSize))) pre.flatten
        (post.flatten ++ (term ++ slack')) (by
          rw [length_replicate]
          omega : read a 20 2 + read a 16 4 +
            (replicate (newSize - read a 16 4) (0 : UInt8)).length ≤ a₁.length)
      rw [hhdr, ← h₁.attr_eq, ← add_assoc] at hpoke
      have hfits : hdr.length + pre.flatten.length + read a 20 2 + read a 16 4 +
          (replicate (newSize - read a 16 4) (0 : UInt8)).length ≤ m₁.length := by
        rw [length_replicate, h₁.attr_eq]
        simp only [length_append]
        omega
      rw [if_pos hgrows, poke, if_pos hfits, hpoke, clearedValue, if_pos hgrows]
    · rw [if_neg hgrows, clearedValue, if_neg hgrows, ← h₁.attr_eq]

end Resize

end NtfsDxe
