import NtfsDxe.Mft.Alloc
import NtfsDxe.Record.Layout

/-! # New mft records

A record that is laid out has no attributes. When it is allocated, it keeps its sequence
number, and it is in use.
-/

namespace NtfsDxe

open Foundation LittleEndian List

/-- The record has room for a header and the attributes of a new file, and its sizes fit into
their fields. -/
structure RecordSizes (env : MftEnv) : Prop where
  ge : 1024 ≤ env.recordSize
  le : env.recordSize ≤ 2 ^ 23

lemma RecordSizes.newAttrsOffset (h : RecordSizes env) :
    48 ≤ newAttrsOffset env ∧ newAttrsOffset env + 888 ≤ env.recordSize ∧
      newAttrsOffset env < 2 ^ 16 ∧ 8 ∣ newAttrsOffset env ∧
      (env.oldFormat = false → 50 ≤ newAttrsOffset env) := by
  have hge := h.ge
  have hle := h.le
  rw [NtfsDxe.newAttrsOffset, if_pos (by omega : 512 ≤ env.recordSize), align8]
  cases env.oldFormat <;> simp <;> omega

/-- A new record: a header and no attributes. -/
structure LaidOut (env : MftEnv) (m hdr term slack : Buffer) : Prop where
  layout : RecordLayout m hdr [] term slack
  length_eq : m.length = env.recordSize
  header_eq : hdr.length = newAttrsOffset env
  allocated : read hdr 28 4 = env.recordSize
  usa : read hdr 4 2 = if env.oldFormat then 42 else 48
  links : read hdr 18 2 = 0

lemma newRecordFields_fit (h : RecordSizes env) :
    ∀ f ∈ newRecordFields env mref, f.off + f.size ≤ newAttrsOffset env + 8 := by
  obtain ⟨hge, -, -, -, hnew⟩ := h.newAttrsOffset
  unfold newRecordFields
  cases hformat : env.oldFormat with
  | true => simp; omega
  | false =>
    simp
    omega

lemma newRecordFields_apart (h : RecordSizes env) :
    (newRecordFields env mref).Pairwise Field.Apart := by
  obtain ⟨hge, -, -, -, hnew⟩ := h.newAttrsOffset
  unfold newRecordFields
  cases hformat : env.oldFormat with
  | true =>
    simp only [if_true, nil_append, pairwise_cons, Field.Apart]
    simp
    omega
  | false =>
    have hnew := hnew hformat
    simp only [Bool.false_eq_true, if_false, cons_append, nil_append, pairwise_cons, Field.Apart]
    simp
    omega

lemma read_newRecordFields (h : RecordSizes env) {mref : Nat} {m : Buffer}
    (hlength : m.length = env.recordSize) {f : Field} (hf : f ∈ newRecordFields env mref) :
    read (writeFields m 0 (newRecordFields env mref)) f.off f.size = f.val % 256 ^ f.size := by
  obtain ⟨-, hle, -⟩ := h.newAttrsOffset
  refine read_writeFields_of_mem (fun g hg => ?_) (newRecordFields_apart h) hf
  have hfit := newRecordFields_fit h g hg
  omega

lemma mftRecordLayout_spec (h : RecordSizes env) {n : Buffer}
    (hlength : m.length = env.recordSize) (hn : mftRecordLayout env mref m = .ok n) :
    ∃ hdr term slack, LaidOut env n hdr term slack ∧ read hdr 16 2 = 1 ∧ read hdr 22 2 = 0 := by
  obtain ⟨hge, hle, hlt, hdvd, -⟩ := h.newAttrsOffset
  have hsize := h.le
  rw [mftRecordLayout] at hn
  split at hn
  · cases hn
  cases hn
  set w := writeFields m 0 (newRecordFields env mref)
  set off := newAttrsOffset env with hoff
  have hwlen : w.length = env.recordSize := by
    rw [writeFields_length fun g hg => ?_, hlength]
    have hfit := newRecordFields_fit h g hg
    omega
  have hhdr : (w.take off).length = off := by
    rw [length_take]
    omega
  have hterm : ((w.drop off).take 8).length = 8 := by
    rw [length_take, length_drop]
    omega
  have hread : ∀ k size, k + size ≤ off → read (w.take off) k size = read w k size := by
    intro k size hk
    have happend := read_append_left (w.drop off) (by omega : k + size ≤ (w.take off).length)
    rw [take_append_drop] at happend
    exact happend.symm
  have hfield : ∀ f ∈ newRecordFields env mref, f.off + f.size ≤ off →
      read (w.take off) f.off f.size = f.val % 256 ^ f.size := by
    intro f hf hk
    rw [hread _ _ hk]
    exact read_newRecordFields h hlength hf
  have hinUse : align8 (off + 8) = off + 8 := align8_of_dvd (by omega) (by omega)
  have hslack : splice w (off + 8) (replicate (env.recordSize - (off + 8)) 0) =
      w.take off ++ (([] : List Buffer).flatten ++
        ((w.drop off).take 8 ++ replicate (env.recordSize - (off + 8)) 0)) := by
    have hdrop : w.drop (off + 8 + (env.recordSize - (off + 8))) = [] :=
      drop_eq_nil_of_le (by omega)
    rw [splice, length_replicate, hdrop, take_add]
    simp
  have hterminator : read ((w.drop off).take 8) 0 4 = atEnd := by
    have hend := @read_newRecordFields env h mref m hlength ⟨off, 4, atEnd⟩
      (by simp [newRecordFields, ← hoff])
    rw [LittleEndian.read, drop_zero, take_take]
    exact hend
  have hallocated : read (w.take off) 28 4 = env.recordSize := by
    rw [hfield ⟨28, 4, env.recordSize⟩ (by simp [newRecordFields]) (by dsimp only; omega)]
    exact Nat.mod_eq_of_lt (by dsimp only; omega)
  refine ⟨w.take off, (w.drop off).take 8, replicate (env.recordSize - (off + 8)) 0, ⟨?_, ?_,
    hhdr, hallocated, ?_, ?_⟩, ?_, ?_⟩
  · refine ⟨hslack, by omega, ?_, ?_, ?_, ?_, ?_, fun _ ha => (by cases ha), .nil, hterm,
      hterminator⟩
    · rw [hhdr, hfield ⟨20, 2, off⟩ (by simp [newRecordFields, ← hoff]) (by dsimp only; omega)]
      exact Nat.mod_eq_of_lt (by dsimp only; omega)
    · rw [hhdr, hfield ⟨24, 4, align8 (off + 8)⟩ (by simp [newRecordFields, ← hoff])
        (by dsimp only; omega)]
      dsimp only
      rw [hinUse, flatten_nil]
      exact Nat.mod_eq_of_lt (by omega)
    · rw [flatten_nil, length_nil]
      omega
    · rw [hallocated, splice_length (by rw [length_replicate]; omega), hwlen]
    · omega
  · rw [splice_length (by rw [length_replicate]; omega), hwlen]
  · rw [hfield ⟨4, 2, if env.oldFormat then 42 else 48⟩ (by simp [newRecordFields])
      (by dsimp only; omega)]
    cases env.oldFormat <;> rfl
  · exact hfield ⟨18, 2, 0⟩ (by simp [newRecordFields]) (by dsimp only; omega)
  · exact hfield ⟨16, 2, 1⟩ (by simp [newRecordFields]) (by dsimp only; omega)
  · exact hfield ⟨22, 2, 0⟩ (by simp [newRecordFields]) (by dsimp only; omega)

/-- Writing to the header outside the fields with the sizes. -/
lemma RecordLayout.writeHeader (h : RecordLayout m hdr attrs term slack)
    (v : Nat) (hfit : off + n ≤ hdr.length)
    (hout : off + n ≤ 20 ∨ 22 ≤ off ∧ off + n ≤ 24 ∨ 32 ≤ off) :
    RecordLayout (write m off n v) (write hdr off n v) attrs term slack := by
  have hset := @RecordLayout.setHeader m hdr term slack attrs h (write hdr off n v)
    { length_eq := write_length _ hfit
      attrs_offset := read_write_of_disjoint _ hfit (by omega)
      in_use := (read_write_of_disjoint _ hfit (by omega)).trans h.in_use
      allocated := read_write_of_disjoint _ hfit (by omega) }
  rwa [h.bytes_eq, write_append_left _ _ hfit]

lemma LaidOut.writeHeader (h : LaidOut env m hdr term slack) (v : Nat) (hfit : off + n ≤ hdr.length)
    (hout : 6 ≤ off ∧ off + n ≤ 18 ∨ 22 ≤ off ∧ off + n ≤ 24 ∨ 32 ≤ off) :
    LaidOut env (write m off n v) (write hdr off n v) term slack := by
  have hslack := h.layout.slack_length
  exact
    { layout := h.layout.writeHeader v hfit (by omega)
      length_eq := (write_length _ (by omega)).trans h.length_eq
      header_eq := (write_length _ hfit).trans h.header_eq
      allocated := (read_write_of_disjoint _ hfit (by omega)).trans h.allocated
      usa := (read_write_of_disjoint _ hfit (by omega)).trans h.usa
      links := (read_write_of_disjoint _ hfit (by omega)).trans h.links }

lemma LaidOut.read_eq (h : LaidOut env m hdr term slack) (hfit : off + n ≤ hdr.length) :
    read m off n = read hdr off n := by
  rw [h.layout.bytes_eq, read_append_left _ hfit]

/-- The record is in use, and its sequence number is kept unless it was zero. -/
lemma reformatted_spec (h : RecordSizes env) {n : Buffer}
    (hlength : m.length = env.recordSize) (hn : reformatted env bit m usn = .ok n) :
    ∃ hdr term slack, LaidOut env n hdr term slack ∧ read hdr 22 2 = 1 ∧
      read hdr 16 2 = if sequenceNumber m = 0 then 1 else sequenceNumber m := by
  obtain ⟨hge, -, -, -, hnew⟩ := h.newAttrsOffset
  rw [reformatted] at hn
  cases hlaid : mftRecordLayout env bit m with
  | error e =>
    rw [hlaid] at hn
    cases hn
  | ok n₀ =>
    rw [hlaid] at hn
    dsimp only at hn
    obtain ⟨hdr₀, term, slack, h₀, hseq₀, hflags₀⟩ := mftRecordLayout_spec h hlength hlaid
    -- the sequence number of the old record
    have hone : ∃ hdr₁, LaidOut env
        (if sequenceNumber m = 0 then n₀ else write n₀ 16 2 (sequenceNumber m)) hdr₁ term slack ∧
        read hdr₁ 22 2 = 0 ∧
        read hdr₁ 16 2 = if sequenceNumber m = 0 then 1 else sequenceNumber m := by
      have hheader := h₀.layout.header
      by_cases hzero : sequenceNumber m = 0
      · rw [if_pos hzero, if_pos hzero]
        exact ⟨hdr₀, h₀, hflags₀, hseq₀⟩
      · rw [if_neg hzero, if_neg hzero]
        refine ⟨_, h₀.writeHeader _ (by omega) (by omega), ?_, ?_⟩
        · rw [read_write_of_disjoint _ (by omega) (by omega), hflags₀]
        · rw [read_write_self _ (by omega)]
          exact Nat.mod_eq_of_lt (read_lt 2)
    obtain ⟨hdr₁, h₁, hflags₁, hseq₁⟩ := hone
    -- its update sequence number, in a field behind the others
    generalize (if sequenceNumber m = 0 then n₀ else write n₀ 16 2 (sequenceNumber m)) = n₁ at hn h₁
    have hheader := h₁.header_eq
    have husa : usaOfs n₁ = if env.oldFormat then 42 else 48 := by
      rw [usaOfs, h₁.read_eq (by omega), h₁.usa]
    have hbounds : 42 ≤ usaOfs n₁ ∧ usaOfs n₁ + 2 ≤ hdr₁.length := by
      rw [husa]
      cases hformat : env.oldFormat with
      | true => exact ⟨le_refl _, by simp; omega⟩
      | false =>
        have hnew := hnew hformat
        exact ⟨by simp, by simp; omega⟩
    have htwo : ∃ hdr₂, LaidOut env
        (if usn = 0 ∨ usn = 0xffff then n₁ else write n₁ (usaOfs n₁) 2 usn) hdr₂ term slack ∧
        read hdr₂ 22 2 = 0 ∧
        read hdr₂ 16 2 = if sequenceNumber m = 0 then 1 else sequenceNumber m := by
      split
      · exact ⟨hdr₁, h₁, hflags₁, hseq₁⟩
      · refine ⟨_, h₁.writeHeader _ hbounds.2 (by omega), ?_, ?_⟩
        · rw [read_write_of_disjoint _ hbounds.2 (by omega), hflags₁]
        · rw [read_write_of_disjoint _ hbounds.2 (by omega), hseq₁]
    obtain ⟨hdr₂, h₂, hflags₂, hseq₂⟩ := htwo
    generalize (if usn = 0 ∨ usn = 0xffff then n₁ else write n₁ (usaOfs n₁) 2 usn) = n₂ at hn h₂
    have hheader₂ := h₂.header_eq
    have hflags : recordFlags n₂ = 0 := by
      rw [recordFlags, h₂.read_eq (by omega), hflags₂]
    rw [hflags] at hn
    cases hn
    refine ⟨_, term, slack, h₂.writeHeader _ (by omega) (by omega), ?_, ?_⟩
    · rw [read_write_self _ (by omega)]
      rfl
    · rw [read_write_of_disjoint _ (by omega) (by omega), hseq₂]

end NtfsDxe
