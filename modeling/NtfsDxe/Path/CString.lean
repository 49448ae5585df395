import Mathlib.Data.List.TakeWhile

/-! # The string functions of the driver

The driver brings its own versions of the functions of the C library. A string is
the part of a buffer before its first zero byte.
-/

namespace NtfsDxe

open List

def cstr (buffer : List UInt8) : List UInt8 := buffer.takeWhile (· != 0)

/-- `strcpy`: the terminating zero is not copied. -/
def strcpy (destination source : List UInt8) : List UInt8 :=
  cstr source ++ destination.drop (cstr source).length

/-- `strcat`: the search for the end stops behind the zero byte, and the loop that should
copy has an empty body, so that all that is written is one zero byte. -/
def strcat (destination source : List UInt8) : List UInt8 :=
  destination.set ((cstr destination).length + 1 + (cstr source).length) 0

/-- What is written behind the end of a string does not change it. -/
lemma cstr_set (hi : (cstr buffer).length < i) : cstr (buffer.set i c) = cstr buffer := by
  induction buffer generalizing i with
  | nil => rfl
  | cons b buffer ih =>
    cases i with
    | zero => cases hi
    | succ i =>
      by_cases hb : b = 0
      · subst hb
        rfl
      · have hhead : (b != 0) = true := by simpa using hb
        rw [cstr, takeWhile_cons, if_pos hhead] at hi
        rw [set_cons_succ, cstr, cstr, takeWhile_cons, takeWhile_cons, if_pos hhead, if_pos hhead]
        congr 1
        exact ih (Nat.lt_of_succ_lt_succ hi)

lemma cstr_strcat : cstr (strcat destination source) = cstr destination := by
  apply cstr_set
  omega

lemma cstr_of_not_mem (hs : 0 ∉ s) : cstr s = s := by
  apply takeWhile_eq_self_iff.mpr
  intro c hc
  simp only [bne_iff_ne]
  rintro rfl
  exact hs hc

lemma not_mem_cstr : 0 ∉ cstr buffer := by
  intro h
  have hne := mem_takeWhile_imp h
  simp at hne

/-- A copy into a buffer of zeros that is long enough. -/
lemma cstr_strcpy_replicate (hsize : (cstr source).length < size) :
    cstr (strcpy (replicate size 0) source) = cstr source := by
  obtain ⟨rest, hrest⟩ : ∃ rest, size - (cstr source).length = rest + 1 :=
    ⟨size - (cstr source).length - 1, by omega⟩
  rw [strcpy, drop_replicate, hrest, replicate_succ]
  have hall : ∀ c ∈ cstr source, (c != 0) = true := by
    intro c hc
    simp only [bne_iff_ne]
    rintro rfl
    exact not_mem_cstr hc
  have hcopy := @List.takeWhile_append_of_pos _ (fun c : UInt8 => c != 0) (cstr source)
    (0 :: replicate rest 0) hall
  rw [cstr, hcopy]
  simp

end NtfsDxe
