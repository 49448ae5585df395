import Mathlib.Algebra.Order.BigOperators.Group.List
import Mathlib.Algebra.Order.Ring.Nat

/-! # The Gregorian calendar

Days are numbered by adding up the lengths of years and months. A date with a time
of day is valid if it occurs in the calendar, and stands for a number of seconds.
-/

namespace Foundation.Calendar

def IsLeap (year : Nat) : Prop := year % 4 = 0 ∧ (year % 100 ≠ 0 ∨ year % 400 = 0)

instance (year : Nat) : Decidable (IsLeap year) :=
  inferInstanceAs (Decidable (_ ∧ _))

def yearLength (year : Nat) : Nat := if IsLeap year then 366 else 365

lemma le_yearLength (year : Nat) : 365 ≤ yearLength year := by
  unfold yearLength
  split <;> omega

def monthLengths (year : Nat) : List Nat :=
  [31, if IsLeap year then 29 else 28, 31, 30, 31, 30, 31, 31, 30, 31, 30, 31]

lemma monthLengths_sum : (monthLengths year).sum = yearLength year := by
  unfold monthLengths yearLength
  split <;> rfl

lemma take_monthLengths_sum_le (n : Nat) : ((monthLengths year).take n).sum ≤ 31 * n := by
  have hle : ∀ length ∈ (monthLengths year).take n, length ≤ 31 := by
    intro length hmem
    have hmonth := List.mem_of_mem_take hmem
    unfold monthLengths at hmonth
    split at hmonth <;> simp at hmonth <;> omega
  have hsum : _ ≤ _ * 31 := List.sum_le_card_nsmul _ 31 hle
  rw [List.length_take] at hsum
  omega

def daysBeforeYear : Nat → Nat
  | 0 => 0
  | year + 1 => daysBeforeYear year + yearLength year

/-- Every fourth year is a leap year, with the exception of centuries. -/
lemma daysBeforeYear_succ (year : Nat) :
    daysBeforeYear (year + 1) + year / 100 = 365 * (year + 1) + year / 4 + year / 400 + 1 := by
  induction year with
  | zero => rfl
  | succ year ih =>
    rw [daysBeforeYear, yearLength]
    by_cases hleap : IsLeap (year + 1)
    · rw [if_pos hleap]
      unfold IsLeap at hleap
      omega
    · rw [if_neg hleap]
      unfold IsLeap at hleap
      omega

/-- A date and a time of day; months and days are counted from 1. -/
structure DateTime where
  year : Nat
  month : Nat
  day : Nat
  hour : Nat
  minute : Nat
  second : Nat
  deriving DecidableEq

namespace DateTime

def dayNumber (d : DateTime) : Nat :=
  daysBeforeYear d.year + ((monthLengths d.year).take (d.month - 1)).sum + (d.day - 1)

/-- The seconds from the beginning of the year 0. -/
def seconds (d : DateTime) : Nat :=
  d.dayNumber * 86400 + d.hour * 3600 + d.minute * 60 + d.second

/-- The date occurs in the calendar. -/
structure Valid (d : DateTime) : Prop where
  month_pos : 1 ≤ d.month
  day_pos : 1 ≤ d.day
  day_le : ∃ length, (monthLengths d.year)[d.month - 1]? = some length ∧ d.day ≤ length
  hour_lt : d.hour < 24
  minute_lt : d.minute < 60
  second_lt : d.second < 60

end DateTime

lemma seconds_newYear : (DateTime.mk year 1 1 0 0 0).seconds = daysBeforeYear year * 86400 := by
  simp [DateTime.seconds, DateTime.dayNumber]

end Foundation.Calendar
