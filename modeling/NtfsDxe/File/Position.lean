import NtfsDxe.File.Read

/-! # The position of a file

`NtfsSetPositionFile` and `NtfsGetPositionFile` go through `ntfs_seek_r`. The 64-bit
position of the protocol becomes an `int` on the way, and `ntfs_seek_r` clamps it
between 0 and the length of the file.
-/

namespace NtfsDxe

/-! ## Seeking -/

/-- The origins of `ntfs_seek_r`. -/
inductive Whence where
  | seekSet
  | seekCur
  | seekEnd

/-- `MIN(x, file->len)`, compared and returned as a `u64`. -/
def minLen (x : Int) (len : Nat) : Int := if u64 x < len then u64 x else len

/-- The position `ntfs_seek_r` computes. From the end of the file the sum is a
`u64`, which is never below 0. -/
def seekTarget (file : ReadFileState) (pos : Int) : Whence → Int
  | .seekSet => s32 (minLen (max pos 0) file.len)
  | .seekCur => s32 (minLen (max (s32 (file.pos + pos)) 0) file.len)
  | .seekEnd => s32 (minLen (u64 (file.len + pos)) file.len)

/-- `ntfs_seek_r`: the result and the file state. -/
def ntfsSeekR (file : ReadFileState) (pos : Int) (dir : Whence) : Int × ReadFileState :=
  match file.vd, file.ni, file.dataNa with
  | true, true, some _ =>
    (seekTarget file pos dir, { file with pos := seekTarget file pos dir })
  | _, _, _ => (-1, file)

/-! ## The protocol functions -/

/-- The fields of `NTFS_IFILE` used for positions. -/
structure PositionHandle where
  type : HandleType
  file : ReadFileState
  position : UInt64

/-- `NtfsSetPositionFile`. The result of the seek is not looked at. -/
def ntfsSetPositionFile (h : PositionHandle) (position : UInt64) :
    EfiStatus × PositionHandle :=
  match h.type with
  | .file => (.success, { h with file := (ntfsSeekR h.file (s32 position.toNat) .seekSet).2 })
  | .dir => if position ≠ 0 then (.unsupported, h) else (.success, { h with position := 0 })
  | .other => (.success, h)

/-- `NtfsGetPositionFile`: the status, `*Position` where it is set, and the handle. -/
def ntfsGetPositionFile (h : PositionHandle) : EfiStatus × Option Int × PositionHandle :=
  match h.type with
  | .file =>
    let r := ntfsSeekR h.file 0 .seekCur
    (.success, some (u64 r.1), { h with file := r.2 })
  | .dir => (.accessDenied, some 0, h)
  | .other => (.accessDenied, none, h)

/-! ## Positions of a regular file -/

structure RegularHandle (h : PositionHandle) : Prop where
  type : h.type = .file
  vd : h.file.vd = true
  ni : h.file.ni = true
  dataNa : h.file.dataNa.isSome = true

section

variable (len : Nat) (position : UInt64)

/-- The position to be taken: the given one cut at the end of the file, and the
end of the file for the largest value. -/
def requestedPosition : Nat :=
  if position.toNat = 18446744073709551615 then len else min position.toNat len

/-- The position that is left of a 64-bit one as a non-negative `int`. -/
def intPosition (position : UInt64) : Nat :=
  if position.toNat % 4294967296 < 2147483648 then position.toNat % 4294967296 else 0

lemma RegularHandle.seek (hreg : RegularHandle h) :
    ntfsSeekR h.file pos dir =
      (seekTarget h.file pos dir, { h.file with pos := seekTarget h.file pos dir }) := by
  obtain ⟨na, hna⟩ := Option.isSome_iff_exists.mp hreg.dataNa
  simp only [ntfsSeekR, hreg.vd, hreg.ni, hna]

lemma max_s32_zero : max (s32 position.toNat) 0 = intPosition position := by
  unfold intPosition
  by_cases hlow : position.toNat % 4294967296 < 2147483648
  · have heq : s32 (position.toNat : Int) = (position.toNat % 4294967296 : Nat) := by
      rw [s32_eq_iff]
      omega
    rw [if_pos hlow, heq, max_eq_left (Int.natCast_nonneg _)]
  · have heq : s32 (position.toNat : Int) =
        (position.toNat % 4294967296 : Nat) - 4294967296 := by
      rw [s32_eq_iff]
      omega
    rw [if_neg hlow]
    omega

lemma intPosition_lt (position : UInt64) : intPosition position < 2147483648 := by
  unfold intPosition
  split <;> omega

/-- The clamp of `ntfs_seek_r` on a non-negative `int`. -/
lemma s32_minLen {x : Nat} (hx : x < 2147483648) (len : Nat) :
    s32 (minLen x len) = (min x len : Nat) := by
  have hself : u64 (x : Int) = x := u64_of_nonneg (by omega) (by omega)
  rw [minLen, hself]
  by_cases hlt : (x : Int) < len
  · rw [if_pos hlt, s32_natCast hx, min_eq_left (by omega)]
  · rw [if_neg hlt, s32_natCast (by omega), min_eq_right (by omega)]

/-- The position that `NtfsSetPositionFile` leaves. -/
def storedPosition : Nat := min (intPosition position) len

lemma storedPosition_lt : storedPosition len position < 2147483648 :=
  lt_of_le_of_lt (min_le_left _ _) (intPosition_lt position)

lemma RegularHandle.setPosition (hreg : RegularHandle h) (position : UInt64) :
    ntfsSetPositionFile h position =
      (.success, { h with
        file := { h.file with pos := storedPosition h.file.len position } }) := by
  have htarget : seekTarget h.file (s32 position.toNat) .seekSet =
      storedPosition h.file.len position := by
    rw [seekTarget, max_s32_zero, s32_minLen (intPosition_lt position)]
    rfl
  simp only [ntfsSetPositionFile, hreg.type]
  rw [hreg.seek, htarget]

/-- The position is read without changing it. -/
lemma RegularHandle.getPosition (hreg : RegularHandle h) {pos : Nat}
    (hpos : h.file.pos = pos) (hle : pos ≤ h.file.len) (hmax : pos < 2147483648) :
    ntfsGetPositionFile h = (.success, some (pos : Int), h) := by
  have hself : s32 (h.file.pos + 0) = pos := by rw [add_zero, hpos, s32_natCast hmax]
  have htarget : seekTarget h.file 0 .seekCur = pos := by
    rw [seekTarget, hself, max_eq_left (Int.natCast_nonneg _), s32_minLen hmax, min_eq_left hle]
  have hsame : { h.file with pos := (pos : Int) } = h.file := by rw [← hpos]
  have hvalue : u64 (pos : Int) = pos := u64_of_nonneg (by omega) (by omega)
  simp only [ntfsGetPositionFile, hreg.type]
  rw [hreg.seek, htarget, hvalue, hsame, ← hreg.type]

lemma RegularHandle.withPos (hreg : RegularHandle h) (pos : Int) :
    RegularHandle { h with file := { h.file with pos := pos } } :=
  { hreg with }

/-- The position left is the one asked for as long as it is an `int`, or the file
ends before what is left of it. -/
lemma storedPosition_eq_iff :
    storedPosition len position = requestedPosition len position ↔
      position.toNat < 2147483648 ∨ len ≤ intPosition position := by
  unfold storedPosition requestedPosition intPosition
  split_ifs <;> omega

end

/-- Setting the position of an open file takes it to the position asked for: this
is what `NtfsGetPositionFile` returns, and where the next read starts. -/
def SetsPosition (h : PositionHandle) (position : UInt64) : Prop :=
  (ntfsSetPositionFile h position).1 = .success ∧
    (ntfsGetPositionFile (ntfsSetPositionFile h position).2).1 = .success ∧
    (ntfsGetPositionFile (ntfsSetPositionFile h position).2).2.1 =
      some (requestedPosition h.file.len position : Int) ∧
    (ntfsSetPositionFile h position).2.file.pos = requestedPosition h.file.len position

/-- Setting the position works exactly for positions below 2^31, and otherwise
when the file ends before what is left of the position as an `int`. -/
theorem ntfsSetPositionFile_iff (hreg : RegularHandle h) (position : UInt64) :
    SetsPosition h position ↔ position.toNat < 2147483648 ∨ h.file.len ≤ intPosition position := by
  have hget := (hreg.withPos (storedPosition h.file.len position)).getPosition rfl
    (min_le_right _ _) (storedPosition_lt h.file.len position)
  rw [← storedPosition_eq_iff, SetsPosition, hreg.setPosition]
  rw [hget]
  constructor
  · rintro ⟨_, _, _, hpos⟩
    exact Int.natCast_inj.mp hpos
  · intro heq
    rw [heq]
    exact ⟨rfl, rfl, rfl, rfl⟩

/-- A handle of a regular file of the given length, standing at its start. -/
def regularHandle (len : Nat) : PositionHandle where
  type := .file
  file := openedAt ⟨len, fun _ => 0⟩ 0
  position := 0

theorem ntfsSetPositionFile_small : SetsPosition (regularHandle 10) 4 :=
  (ntfsSetPositionFile_iff ⟨rfl, rfl, rfl, rfl⟩ 4).mpr (.inl (by decide))

/-- The end of a file of one byte is not reached with the largest position. -/
theorem ntfsSetPositionFile_end_lost :
    (ntfsGetPositionFile (ntfsSetPositionFile (regularHandle 1) 18446744073709551615).2).2.1 =
        some 0 ∧
      ¬ SetsPosition (regularHandle 1) 18446744073709551615 := by
  have hget : (ntfsGetPositionFile
      (ntfsSetPositionFile (regularHandle 1) 18446744073709551615).2).2.1 = some 0 := by
    decide
  refine ⟨hget, ?_⟩
  rintro ⟨_, _, hone, _⟩
  exact absurd hone (by decide)

end NtfsDxe
