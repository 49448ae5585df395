import NtfsDxe.Unistr.Equal

/-! # The order of names

On disk the names of a directory are ordered by their upper-cased code units, and names that
agree in these by the code units themselves. `ntfs_names_full_collate` computes this order in
the case sensitive mode, and its first part when the case is ignored.
-/

namespace NtfsDxe

open List

def upperName (upcase : List UInt16) (name : Name) : Name := name.map (upcaseUnit upcase)

section

variable (upcase : List UInt16) (name1 name2 : Name)

def upperOrder : Ordering :=
  List.compareLex compare (upperName upcase name1) (upperName upcase name2)

def nameOrder : Ordering :=
  (upperOrder upcase name1 name2).then (List.compareLex compare name1 name2)

lemma compareLex_append_left (skipped rest1 : Name) :
    List.compareLex compare (skipped ++ rest1) (skipped ++ rest2) =
      List.compareLex compare rest1 rest2 := by
  induction skipped with
  | nil => rfl
  | cons c skipped ih =>
    rw [cons_append, cons_append, List.compareLex_cons_cons,
      Std.compare_eq_iff_eq.mpr rfl, Ordering.eq_then, ih]

lemma upperOrder_append_left (upcase : List UInt16) (skipped : Name) :
    upperOrder upcase (skipped ++ rest1) (skipped ++ rest2) = upperOrder upcase rest1 rest2 := by
  rw [upperOrder, upperName, upperName, map_append, map_append, compareLex_append_left]
  rfl

variable {upcase : List UInt16} {name1 name2 rest1 rest2 : Name}

/-- Names that agree up to the case have one length. -/
lemma length_eq_of_upperOrder (h : upperOrder upcase name1 name2 = .eq) :
    name1.length = name2.length := by
  have hsame : upperName upcase name1 = upperName upcase name2 := by
    exact Std.compare_eq_iff_eq.mp h
  have hlength := congrArg List.length hsame
  rwa [upperName, upperName, length_map, length_map] at hlength

lemma then_of_ne_eq {o : Ordering} (h : o ≠ .eq) (p : Ordering) : o.then p = o.then q := by
  cases o with
  | lt => rfl
  | eq => exact absurd rfl h
  | gt => rfl

lemma upperOrder_cons :
    upperOrder upcase (c :: rest1) (d :: rest2) =
      (compare (upcaseUnit upcase c) (upcaseUnit upcase d)).then
        (upperOrder upcase rest1 rest2) := by
  rw [upperOrder, upperName, upperName, map_cons, map_cons, List.compareLex_cons_cons]
  rfl

/-- A name and one that continues it are told apart by the length. -/
lemma compare_length_of_nil (hnil : rest1 = [] ∨ rest2 = []) :
    compare (rest1.length + 1) (rest2.length + 1) = upperOrder upcase rest1 rest2 := by
  rcases hnil with rfl | rfl
  · cases rest2 with
    | nil => rfl
    | cons d rest2 => exact Nat.compare_eq_lt.mpr (by simp)
  · cases rest1 with
    | nil => rfl
    | cons c rest1 => exact Nat.compare_eq_gt.mpr (by simp)

lemma compare_succ : compare (m + 1) (n + 1) = compare m n := by
  rcases lt_trichotomy m n with hlt | rfl | hgt
  · rw [Nat.compare_eq_lt.mpr hlt, Nat.compare_eq_lt.mpr (Nat.succ_lt_succ hlt)]
  · rw [Nat.compare_eq_eq.mpr rfl, Nat.compare_eq_eq.mpr rfl]
  · rw [Nat.compare_eq_gt.mpr hgt, Nat.compare_eq_gt.mpr (Nat.succ_lt_succ hgt)]

lemma compare_add_left (k m : Nat) : compare (k + m) (k + n) = compare m n := by
  induction k with
  | zero => rw [zero_add, zero_add]
  | succ k ih => rw [Nat.succ_add, Nat.succ_add, compare_succ, ih]

lemma collateUnits_cons_cons :
    collateUnits upcase (cnt + 1) (c :: rest1) (d :: rest2) =
      if upcaseUnit upcase c = upcaseUnit upcase d then collateUnits upcase cnt rest1 rest2
      else (upcaseUnit upcase c, upcaseUnit upcase d) := rfl

/-- The last pair of upper-cased code units that is compared decides, and after that the
length. -/
lemma collateUnits_order (cnt : Nat) (name1 name2 : Name)
    (hcnt : cnt + 1 = min name1.length name2.length) :
    (compare (collateUnits upcase cnt name1 name2).1 (collateUnits upcase cnt name1 name2).2).then
      (compare name1.length name2.length) = upperOrder upcase name1 name2 := by
  induction cnt generalizing name1 name2 with
  | zero =>
    cases name1 with
    | nil => simp at hcnt
    | cons c rest1 =>
      cases name2 with
      | nil => simp at hcnt
      | cons d rest2 =>
        rw [upperOrder_cons, ← compare_length_of_nil]
        · rfl
        · rw [← length_eq_zero_iff, ← length_eq_zero_iff]
          rw [length_cons, length_cons] at hcnt
          omega
  | succ cnt ih =>
    cases name1 with
    | nil => simp at hcnt
    | cons c rest1 =>
      cases name2 with
      | nil => simp at hcnt
      | cons d rest2 =>
        rw [length_cons, length_cons] at hcnt ⊢
        rw [upperOrder_cons, collateUnits_cons_cons, compare_succ]
        by_cases hup : upcaseUnit upcase c = upcaseUnit upcase d
        · rw [if_pos hup, ih rest1 rest2 (by omega), hup, Std.compare_eq_iff_eq.mpr rfl,
            Ordering.eq_then]
        · rw [if_neg hup]
          exact then_of_ne_eq (fun heq => hup (Std.compare_eq_iff_eq.mp heq)) _

/-- Ignoring the case, names are compared by their upper-cased code units. -/
lemma namesFullCollate_ignoreCase :
    namesFullCollate upcase .ignoreCase name1 name2 = upperOrder upcase name1 name2 := by
  unfold namesFullCollate
  by_cases hcnt : 0 < min name1.length name2.length
  · rw [if_pos hcnt]
    exact collateUnits_order _ name1 name2 (by omega)
  · cases name1 with
    | nil =>
      cases name2 with
      | nil => rfl
      | cons d rest2 => exact Nat.compare_eq_lt.mpr (by simp)
    | cons c rest1 =>
      cases name2 with
      | nil => exact Nat.compare_eq_gt.mpr (by simp)
      | cons d rest2 => simp at hcnt

/-- The first pair of different code units decides between names that agree up to the
case. -/
lemma compare_headD (hlength : rest1.length = rest2.length)
    (hleft : left + 1 = rest1.length) (hstop : left = 0 ∨ rest1.headD 0 ≠ rest2.headD 0) :
    compare (rest1.headD 0) (rest2.headD 0) = List.compareLex compare rest1 rest2 := by
  cases rest1 with
  | nil => simp at hleft
  | cons c tail1 =>
    cases rest2 with
    | nil => simp at hlength
    | cons d tail2 =>
      rw [List.compareLex_cons_cons]
      rcases hstop with hzero | hne
      · rw [length_cons] at hleft hlength
        have hnil1 : tail1 = [] := eq_nil_of_length_eq_zero (by omega)
        have hnil2 : tail2 = [] := eq_nil_of_length_eq_zero (by
          rw [length_cons] at hlength
          omega)
        rw [hnil1, hnil2, List.compareLex_nil_nil, Ordering.then_eq]
        rfl
      · have hcd : compare c d ≠ .eq := fun heq => hne (Std.compare_eq_iff_eq.mp heq)
        rw [then_of_ne_eq hcd _, Ordering.then_eq]
        rfl

lemma namesFullCollate_caseSensitive :
    namesFullCollate upcase .caseSensitive name1 name2 = nameOrder upcase name1 name2 := by
  unfold namesFullCollate nameOrder
  by_cases hcnt : 0 < min name1.length name2.length
  · rw [if_pos hcnt]
    obtain ⟨skipped, hname1, hname2, hcount, hstop⟩ :=
      skipEqual_spec _ name1 hcnt (min_le_left _ _) (min_le_right _ _)
    generalize skipEqual (min name1.length name2.length) name1 name2 = r at *
    obtain ⟨left, rest1, rest2⟩ := r
    dsimp only at *
    subst hname1 hname2
    rw [upperOrder_append_left, compareLex_append_left]
    rw [length_append, length_append] at hcount ⊢
    rw [compare_add_left, ← Ordering.then_assoc, collateUnits_order left rest1 rest2 (by omega)]
    by_cases hupper : upperOrder upcase rest1 rest2 = .eq
    · have hlength := length_eq_of_upperOrder hupper
      rw [compare_headD hlength (by omega) hstop]
    · exact then_of_ne_eq hupper _
  · cases name1 with
    | nil =>
      cases name2 with
      | nil => rfl
      | cons d rest2 => exact Nat.compare_eq_lt.mpr (by simp)
    | cons c rest1 =>
      cases name2 with
      | nil => exact Nat.compare_eq_gt.mpr (by simp)
      | cons d rest2 => simp at hcnt

end

/-! ## The orders -/

abbrev unitsOrder : Name → Name → Ordering := List.compareLex compare

instance (upcase : List UInt16) : Std.TransCmp (upperOrder upcase) where
  eq_swap {a b} := @Std.OrientedCmp.eq_swap _ unitsOrder _ (upperName upcase a) (upperName upcase b)
  isLE_trans {a b c} := @Std.TransCmp.isLE_trans _ unitsOrder _ (upperName upcase a)
    (upperName upcase b) (upperName upcase c)

instance (upcase : List UInt16) : Std.TransCmp (nameOrder upcase) :=
  inferInstanceAs (Std.TransCmp (compareLex (upperOrder upcase) unitsOrder))

/-- The order on disk tells different names apart. -/
lemma nameOrder_eq_iff : nameOrder upcase name1 name2 = .eq ↔ name1 = name2 := by
  unfold nameOrder
  rw [Ordering.then_eq_eq]
  constructor
  · intro h
    exact (@Std.LawfulEqCmp.compare_eq_iff_eq _ unitsOrder _ name1 name2).mp h.2
  · rintro rfl
    exact ⟨Std.ReflCmp.compare_self, @Std.ReflCmp.compare_self _ unitsOrder _ name1⟩

/-- The case sensitive mode is a linear order, the other mode a preorder that does not tell
apart names that differ in the case only, and the modes agree wherever the second one
decides. -/
theorem namesFullCollate_order (upcase : List UInt16) :
    (∀ name1 name2, namesFullCollate upcase .caseSensitive name1 name2 =
      (namesFullCollate upcase .ignoreCase name1 name2).then (unitsOrder name1 name2)) ∧
    (∀ name1 name2, namesFullCollate upcase .ignoreCase name1 name2 =
      unitsOrder (upperName upcase name1) (upperName upcase name2)) ∧
    Std.TransCmp (namesFullCollate upcase .caseSensitive) ∧
    Std.TransCmp (namesFullCollate upcase .ignoreCase) ∧
    (∀ name1 name2, namesFullCollate upcase .caseSensitive name1 name2 = .eq ↔ name1 = name2) ∧
    (∀ name1 name2, namesFullCollate upcase .ignoreCase name1 name2 = .eq ↔
      upperName upcase name1 = upperName upcase name2) ∧
    ∀ name1 name2, namesFullCollate upcase .ignoreCase name1 name2 = .eq ∨
      namesFullCollate upcase .caseSensitive name1 name2 =
        namesFullCollate upcase .ignoreCase name1 name2 := by
  have hsensitive : namesFullCollate upcase .caseSensitive = nameOrder upcase := by
    ext name1 name2
    apply namesFullCollate_caseSensitive
  have hignore : namesFullCollate upcase .ignoreCase = upperOrder upcase := by
    ext name1 name2
    apply namesFullCollate_ignoreCase
  rw [hsensitive, hignore]
  refine ⟨fun _ _ => rfl, fun _ _ => rfl, inferInstance, inferInstance,
    fun _ _ => nameOrder_eq_iff, fun name1 name2 => ?_, fun name1 name2 => ?_⟩
  · exact @Std.LawfulEqCmp.compare_eq_iff_eq _ unitsOrder _ _ _
  · refine or_iff_not_imp_left.mpr fun hne => ?_
    rw [nameOrder, then_of_ne_eq hne _, Ordering.then_eq]

/-- The order up to the case is coarser. -/
lemma upperOrder_isLE (h : (nameOrder upcase name1 name2).isLE) :
    (upperOrder upcase name1 name2).isLE := by
  exact (Ordering.isLE_then_iff_and.mp h).1

end NtfsDxe
