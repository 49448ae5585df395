import NtfsDxe.Core.Machine

/-! # Collation of names

`ntfs_names_full_collate` compares names by their upper-cased code units. In
the case sensitive mode names that agree so far are then told apart by the
first pair of code units that differ.
-/

namespace NtfsDxe

/-- `IGNORE_CASE_BOOL`. -/
inductive CaseMode where
  | caseSensitive
  | ignoreCase

/-- A name as its UTF-16 code units. -/
abbrev Name := List UInt16

def upcaseUnit (upcase : List UInt16) (c : UInt16) : UInt16 := upcase.getD c.toNat c

/-- `while (--cnt && (*name1 == *name2))`: skip equal code units. -/
def skipEqual : Nat → Name → Name → Nat × Name × Name
  | 0, name1, name2 => (0, name1, name2)
  | 1, name1, name2 => (0, name1, name2)
  | cnt + 2, name1, name2 =>
    if name1.headD 0 = name2.headD 0 then skipEqual (cnt + 1) name1.tail name2.tail
    else (cnt + 1, name1, name2)

/-- The upper-cased code units at which the comparison ends, from the current position on. -/
def collateUnits (upcase : List UInt16) : Nat → Name → Name → UInt16 × UInt16
  | 0, name1, name2 =>
    (upcaseUnit upcase (name1.headD 0), upcaseUnit upcase (name2.headD 0))
  | cnt + 1, name1, name2 =>
    if upcaseUnit upcase (name1.headD 0) = upcaseUnit upcase (name2.headD 0) then
      collateUnits upcase cnt name1.tail name2.tail
    else (upcaseUnit upcase (name1.headD 0), upcaseUnit upcase (name2.headD 0))

/-- `ntfs_names_full_collate`: whether the first name collates before the second one (`-1`),
they match, or it collates after it. -/
def namesFullCollate (upcase : List UInt16) (ic : CaseMode) (name1 name2 : Name) : Ordering :=
  let cnt := min name1.length name2.length
  if 0 < cnt then
    match ic with
    | .caseSensitive =>
      let (left, rest1, rest2) := skipEqual cnt name1 name2
      let (u1, u2) := collateUnits upcase left rest1 rest2
      (compare u1 u2).then
        ((compare name1.length name2.length).then (compare (rest1.headD 0) (rest2.headD 0)))
    | .ignoreCase =>
      let (u1, u2) := collateUnits upcase (cnt - 1) name1 name2
      (compare u1 u2).then (compare name1.length name2.length)
  else compare name1.length name2.length

end NtfsDxe
