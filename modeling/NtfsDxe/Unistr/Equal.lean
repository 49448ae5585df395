import NtfsDxe.Unistr.Collate

/-! # Equality of names

`ntfs_names_are_equal` compares two names code unit by code unit and stops behind a
unit that is zero in both. A directory finds an entry by `ntfs_names_full_collate`,
which tells any two different names apart.
-/

namespace NtfsDxe

open List

/-- The loops of `ntfs_ucsncmp` and `ntfs_ucsncasecmp` over names of one length: whether no
pair of code units differs before the first one that is zero. -/
def unitsMatch (unit : UInt16 → UInt16) : Name → Name → Bool
  | c1 :: rest1, c2 :: rest2 =>
    if unit c1 ≠ unit c2 then false
    else if unit c1 = 0 then true
    else unitsMatch unit rest1 rest2
  | _, _ => true

def namesAreEqual (upcase : List UInt16) (ic : CaseMode) (s1 s2 : Name) : Bool :=
  if s1.length ≠ s2.length then false
  else
    match ic with
    | .caseSensitive => unitsMatch id s1 s2
    | .ignoreCase => unitsMatch (upcaseUnit upcase) s1 s2

/-- Two names of one length that are the same up to a zero in both. -/
def AgreeToZero (s1 s2 : Name) : Prop :=
  ∃ common rest1 rest2, s1 = common ++ 0 :: rest1 ∧ s2 = common ++ 0 :: rest2 ∧
    rest1.length = rest2.length

lemma agreeToZero_cons :
    AgreeToZero (c :: s1) (d :: s2) ↔
      c = d ∧ (c = 0 ∧ s1.length = s2.length ∨ AgreeToZero s1 s2) := by
  constructor
  · rintro ⟨common, rest1, rest2, h1, h2, hlength⟩
    cases common with
    | nil =>
      obtain ⟨rfl, rfl⟩ := cons.inj h1
      obtain ⟨rfl, rfl⟩ := cons.inj h2
      exact ⟨rfl, .inl ⟨rfl, hlength⟩⟩
    | cons x common =>
      obtain ⟨rfl, hs1⟩ := cons.inj h1
      obtain ⟨rfl, hs2⟩ := cons.inj h2
      exact ⟨rfl, .inr ⟨common, rest1, rest2, hs1, hs2, hlength⟩⟩
  · rintro ⟨rfl, ⟨rfl, hlength⟩ | ⟨common, rest1, rest2, rfl, rfl, hlength⟩⟩
    · exact ⟨[], s1, s2, rfl, rfl, hlength⟩
    · exact ⟨c :: common, rest1, rest2, rfl, rfl, hlength⟩

lemma unitsMatch_id_iff (hlength : s1.length = s2.length) :
    unitsMatch id s1 s2 = true ↔ s1 = s2 ∨ AgreeToZero s1 s2 := by
  induction s1 generalizing s2 with
  | nil =>
    have hnil : s2 = [] := eq_nil_of_length_eq_zero hlength.symm
    simp [hnil, unitsMatch]
  | cons c rest ih =>
    cases s2 with
    | nil => cases hlength
    | cons d rest2 =>
      have hrest : rest.length = rest2.length := Nat.succ.inj hlength
      have htail := ih hrest
      by_cases hcd : c = d
      · by_cases hc : c = 0
        · simp [unitsMatch, agreeToZero_cons, ← hcd, hc, hrest]
        · simp [unitsMatch, agreeToZero_cons, ← hcd, hc, htail]
      · simp [unitsMatch, agreeToZero_cons, hcd]

variable (upcase : List UInt16) (cnt : Nat)

lemma namesAreEqual_iff :
    namesAreEqual upcase .caseSensitive s1 s2 = true ↔ s1 = s2 ∨ AgreeToZero s1 s2 := by
  unfold namesAreEqual
  by_cases hlength : s1.length = s2.length
  · rw [if_neg (not_not_intro hlength)]
    exact unitsMatch_id_iff hlength
  · rw [if_pos hlength]
    refine iff_of_false Bool.false_ne_true ?_
    rintro (rfl | ⟨common, rest1, rest2, rfl, rfl, hrest⟩)
    · exact hlength rfl
    · simp [hrest] at hlength

/-- A name without a zero is told apart from any other one. -/
lemma namesAreEqual_caseSensitive_iff (hzero : ∀ c ∈ s1, c ≠ 0) :
    namesAreEqual upcase .caseSensitive s1 s2 = true ↔ s1 = s2 := by
  rw [namesAreEqual_iff]
  refine or_iff_left ?_
  rintro ⟨common, rest1, rest2, rfl, -⟩
  exact hzero 0 (mem_append_right common mem_cons_self) rfl

/-! ## Names that collate as equal -/

/-- Where the skipped code units end: at the last pair that is compared, or at the first
pair that differs. -/
lemma skipEqual_spec (name1 : Name) (hpos : 0 < cnt) (h1 : cnt ≤ name1.length)
    (h2 : cnt ≤ name2.length) :
    ∃ skipped, name1 = skipped ++ (skipEqual cnt name1 name2).2.1 ∧
      name2 = skipped ++ (skipEqual cnt name1 name2).2.2 ∧
      skipped.length + (skipEqual cnt name1 name2).1 + 1 = cnt ∧
      ((skipEqual cnt name1 name2).1 = 0 ∨
        (skipEqual cnt name1 name2).2.1.headD 0 ≠ (skipEqual cnt name1 name2).2.2.headD 0) := by
  induction cnt, name1, name2 using skipEqual.induct with
  | case1 name1 name2 => exact absurd hpos (lt_irrefl 0)
  | case2 name1 name2 => exact ⟨[], rfl, rfl, rfl, .inl rfl⟩
  | case3 cnt name1 name2 heq ih =>
    rw [skipEqual, if_pos heq]
    cases name1 with
    | nil => simp at h1
    | cons c rest1 =>
      cases name2 with
      | nil => simp at h2
      | cons d rest2 =>
        obtain rfl : c = d := heq
        obtain ⟨skipped, hname1, hname2, hcount, hstop⟩ :=
          ih (Nat.succ_pos cnt) (Nat.le_of_succ_le_succ h1) (Nat.le_of_succ_le_succ h2)
        refine ⟨c :: skipped, congrArg (c :: ·) hname1, congrArg (c :: ·) hname2, ?_, hstop⟩
        rw [length_cons]
        omega
  | case4 cnt name1 name2 hne =>
    rw [skipEqual, if_neg hne]
    exact ⟨[], rfl, rfl, by simp, .inr hne⟩

/-- Two names of one length that agree up to the last code unit, and there, are equal. -/
lemma eq_of_common_last {skipped rest1 : Name} (h1 : rest1.length = 1) (h2 : rest2.length = 1)
    (hhead : rest1.headD 0 = rest2.headD 0) : skipped ++ rest1 = skipped ++ rest2 := by
  obtain ⟨c, rfl⟩ := length_eq_one_iff.mp h1
  obtain ⟨d, rfl⟩ := length_eq_one_iff.mp h2
  obtain rfl : c = d := hhead
  rfl

lemma skipEqual_self (name : Name) :
    (skipEqual cnt name name).2.1 = (skipEqual cnt name name).2.2 := by
  induction cnt generalizing name with
  | zero => rfl
  | succ cnt ih =>
    cases cnt with
    | zero => rfl
    | succ cnt =>
      rw [skipEqual, if_pos rfl]
      exact ih name.tail

lemma collateUnits_self (name : Name) :
    (collateUnits upcase cnt name name).1 = (collateUnits upcase cnt name name).2 := by
  induction cnt generalizing name with
  | zero => rfl
  | succ cnt ih =>
    rw [collateUnits, if_pos rfl]
    exact ih name.tail

/-- In the case sensitive mode only a name and itself collate as equal. -/
lemma namesFullCollate_eq_iff :
    namesFullCollate upcase .caseSensitive name1 name2 = .eq ↔ name1 = name2 := by
  unfold namesFullCollate
  by_cases hcnt : 0 < min name1.length name2.length
  · rw [if_pos hcnt]
    simp only [Ordering.then_eq_eq, Nat.compare_eq_eq]
    constructor
    · rintro ⟨-, hlength, hhead⟩
      obtain ⟨skipped, hname1, hname2, hcount, hstop⟩ :=
        skipEqual_spec _ name1 hcnt (min_le_left _ _) (min_le_right _ _)
      generalize skipEqual (min name1.length name2.length) name1 name2 = r at *
      have hheads := Std.compare_eq_iff_eq.mp hhead
      have hleft := hstop.resolve_right (not_not_intro hheads)
      have hlen1 := congrArg length hname1
      have hlen2 := congrArg length hname2
      rw [length_append] at hlen1 hlen2
      have hrest1 : r.2.1.length = 1 := by omega
      have hrest2 : r.2.2.length = 1 := by omega
      exact hname1.trans ((eq_of_common_last hrest1 hrest2 hheads).trans hname2.symm)
    · rintro rfl
      refine ⟨?_, rfl, ?_⟩
      · rw [skipEqual_self, collateUnits_self]
        exact Std.compare_eq_iff_eq.mpr rfl
      · rw [skipEqual_self]
        exact Std.compare_eq_iff_eq.mpr rfl
  · rw [if_neg hcnt, Nat.compare_eq_eq]
    constructor
    · intro hlength
      have hnil1 : name1 = [] := eq_nil_of_length_eq_zero (by omega)
      have hnil2 : name2 = [] := eq_nil_of_length_eq_zero (by omega)
      rw [hnil1, hnil2]
    · rintro rfl
      rfl

end NtfsDxe
