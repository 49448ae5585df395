import NtfsDxe.Record.MftRecord

/-! # The key of a search up to case

`ntfs_fix_file_name` fills in the key of its search character by character, in a
`FILE_NAME_ATTR` on the stack. The array for the characters behind this structure is commented
out, and the `file_name` of the structure itself has no elements.
-/

namespace NtfsDxe

open Foundation LittleEndian

/-- The size of a `FILE_NAME_ATTR` and the offset of its `file_name`. -/
def fileNameAttrSize : Nat := 66

def ntfsMaxNameLen : Nat := 255

section

variable (upcase : List UInt16)

/-- A character in upper case, if that is smaller. -/
def keyChar (c : UInt16) : UInt16 := if upcaseUnit upcase c < c then upcaseUnit upcase c else c

/-- The loop over the characters of the name, from the one with number `i` on. -/
def storeKeyChars (find : Buffer) (i : Nat) : List UInt16 → Except Failure Buffer
  | [] => .ok find
  | c :: uname => do
    let find ← poke find (fileNameAttrSize + 2 * i) (bytes 2 (keyChar upcase c).toNat)
    storeKeyChars find (i + 1) uname

/-- The key of `ntfs_fix_file_name`, in a structure with any contents. -/
def fixFileNameKey (garbage : Nat → UInt8) (uname : List UInt16) : Except Failure Buffer := do
  let uname := uname.take ntfsMaxNameLen
  let find ← poke ((List.range fileNameAttrSize).map garbage) 64 (bytes 1 uname.length)
  storeKeyChars upcase find 0 uname

/-- Every character is stored behind the structure. -/
lemma eq_nil_of_storeKeyChars (hfind : find.length = fileNameAttrSize)
    (hkey : storeKeyChars upcase find i uname = .ok key) : uname = [] := by
  cases uname with
  | nil => rfl
  | cons c uname =>
    rw [storeKeyChars, poke, if_neg (by rw [bytes_length, hfind]; omega)] at hkey
    cases hkey

/-- The key is stored in the structure only for the empty name. -/
theorem fixFileNameKey_inside_iff (garbage : Nat → UInt8) (uname : List UInt16) :
    (∃ key, fixFileNameKey upcase garbage uname = .ok key) ↔ uname = [] := by
  constructor
  · rintro ⟨key, hkey⟩
    have hfits : 64 + (bytes 1 (uname.take ntfsMaxNameLen).length).length ≤
        ((List.range fileNameAttrSize).map garbage).length := by
      simp [fileNameAttrSize]
    rw [fixFileNameKey, poke, if_pos hfits] at hkey
    have hnil := eq_nil_of_storeKeyChars upcase ((splice_length hfits).trans (by simp)) hkey
    exact (List.take_eq_nil_iff.mp hnil).resolve_left (by decide)
  · rintro rfl
    exact ⟨_, rfl⟩

end

/-- A name of one character. -/
theorem fixFileNameKey_letter : fixFileNameKey [] (fun _ => 0) [97] = .error .outOfBounds := by
  decide

end NtfsDxe
