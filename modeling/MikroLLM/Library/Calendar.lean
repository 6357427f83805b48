import Mathlib.Data.Int.ConditionallyCompleteOrder
import Mathlib.Data.Int.Order.Basic
import Mathlib.Data.Nat.Find
import Mathlib.Order.Monotone.Basic
import Mathlib.Order.SuccPred.IntervalSucc
import Mathlib.Data.Int.SuccPred

/-!
# The Gregorian calendar

Days are counted from the first of January 1970 and months from the January of
year zero, in both directions and without an end.
-/

namespace MikroLLM.Library

/-- A year with 366 days. -/
def isLeap (year : ℤ) : Bool :=
  year % 4 = 0 ∧ (year % 100 ≠ 0 ∨ year % 400 = 0)

/-- The first day of a year. -/
def yearStart (year : ℤ) : ℤ :=
  365 * (year - 1) + (year - 1) / 4 - (year - 1) / 100 + (year - 1) / 400 - 719162

/-- The year of a day. The first guess is off by one year at most. -/
def yearOf (day : ℤ) : ℤ :=
  let guess := 400 * (day + 719162) / 146097 + 1
  if day < yearStart guess then guess - 1
  else if yearStart (guess + 1) ≤ day then guess + 1
  else guess

/-- The days of a year before one of its months, January being month zero. -/
def daysBefore (leap : Bool) (month : ℕ) : ℤ :=
  [0, 31, 59, 90, 120, 151, 181, 212, 243, 273, 304, 334, 365].getD month 365 +
    if leap ∧ 2 ≤ month then 1 else 0

/-- The first day of a month. -/
def monthStart (month : ℤ) : ℤ :=
  yearStart (month / 12) + daysBefore (isLeap (month / 12)) (month % 12).toNat

/-- The month of a day. -/
def monthOf (day : ℤ) : ℤ :=
  12 * yearOf day + Nat.findGreatest
    (fun month => daysBefore (isLeap (yearOf day)) month ≤ day - yearStart (yearOf day)) 11

theorem yearStart_succ (year : ℤ) :
    yearStart (year + 1) = yearStart year + daysBefore (isLeap year) 12 := by
  have length : daysBefore (isLeap year) 12 = 365 + if isLeap year then 1 else 0 := by
    simp [daysBefore]
  rw [length, yearStart, yearStart]
  by_cases leap : isLeap year = true
  · rw [if_pos leap]
    simp only [isLeap, decide_eq_true_eq] at leap
    omega
  · rw [if_neg leap]
    simp only [isLeap, decide_eq_true_eq] at leap
    omega

/-- A day lies in its year. -/
theorem yearOf_spec (day : ℤ) : yearStart (yearOf day) ≤ day ∧ day < yearStart (yearOf day + 1) := by
  have low : yearStart (400 * (day + 719162) / 146097) ≤ day := by
    simp only [yearStart]
    omega
  have high : day < yearStart (400 * (day + 719162) / 146097 + 1 + 1 + 1) := by
    simp only [yearStart]
    omega
  simp only [yearOf]
  split_ifs with below above
  · constructor
    · simpa using low
    · simpa using below
  · exact ⟨above, high⟩
  · exact ⟨not_lt.mp below, not_le.mp above⟩

theorem daysBefore_lt (leap : Bool) :
    ∀ month < 12, daysBefore leap month < daysBefore leap (month + 1) := by
  cases leap <;> decide

theorem daysBefore_zero (leap : Bool) : daysBefore leap 0 = 0 := by
  cases leap <;> rfl

/-- The month after the last one of a year is the first one of the next. -/
theorem monthStart_of_year {year : ℤ} {month : ℕ} (inYear : month ≤ 12) :
    monthStart (12 * year + month) = yearStart year + daysBefore (isLeap year) month := by
  rcases Nat.lt_or_eq_of_le inYear with before | rfl
  · have isYear : (12 * year + month) / 12 = year := by omega
    have isMonth : ((12 * year + month) % 12).toNat = month := by omega
    rw [monthStart, isYear, isMonth]
  · have isYear : (12 * year + (12 : ℕ)) / 12 = year + 1 := by omega
    have isMonth : ((12 * year + (12 : ℕ)) % 12).toNat = 0 := by omega
    rw [monthStart, isYear, isMonth, daysBefore_zero, yearStart_succ, add_zero]

theorem exists_year (month : ℤ) : ∃ year : ℤ, ∃ place : ℕ, place < 12 ∧ month = 12 * year + place :=
  ⟨month / 12, (month % 12).toNat, by omega, by omega⟩

theorem monthStart_lt_succ (month : ℤ) : monthStart month < monthStart (month + 1) := by
  rcases exists_year month with ⟨year, place, inYear, rfl⟩
  have next : 12 * year + (place : ℤ) + 1 = 12 * year + ((place + 1 : ℕ) : ℤ) := by
    rw [Int.natCast_add, Int.natCast_one, add_assoc]
  rw [next, monthStart_of_year inYear.le, monthStart_of_year inYear]
  exact Int.add_lt_add_left (daysBefore_lt _ place inYear) _

theorem monthStart_strictMono : StrictMono monthStart :=
  strictMono_int_of_lt_succ monthStart_lt_succ

/-- A day lies in its month. -/
theorem monthOf_spec (day : ℤ) :
    monthStart (monthOf day) ≤ day ∧ day < monthStart (monthOf day + 1) := by
  rcases yearOf_spec day with ⟨low, high⟩
  rw [yearStart_succ] at high
  let begun (month : ℕ) : Prop :=
    daysBefore (isLeap (yearOf day)) month ≤ day - yearStart (yearOf day)
  have atStart : begun 0 := by
    simp only [begun, daysBefore_zero]
    omega
  have atMost : Nat.findGreatest begun 11 ≤ 11 := Nat.findGreatest_le 11
  have isBegun : begun (Nat.findGreatest begun 11) :=
    Nat.findGreatest_spec (Nat.zero_le 11) atStart
  have isLast : ¬begun (Nat.findGreatest begun 11 + 1) := by
    rcases Nat.lt_or_eq_of_le atMost with before | last
    · exact Nat.findGreatest_is_greatest (Nat.lt_succ_self _) (by omega)
    · have isNext : (11 : ℕ) + 1 = 12 := rfl
      rw [last, isNext]
      simp only [begun]
      omega
  have isMonth : monthOf day = 12 * yearOf day + (Nat.findGreatest begun 11 : ℕ) := rfl
  generalize Nat.findGreatest begun 11 = place at atMost isBegun isLast isMonth
  have next : monthOf day + 1 = 12 * yearOf day + ((place + 1 : ℕ) : ℤ) := by
    rw [isMonth, Int.natCast_add, Int.natCast_one, add_assoc]
  rw [next, isMonth, monthStart_of_year (by omega), monthStart_of_year (by omega)]
  simp only [begun] at isBegun isLast
  omega

/-- The month whose days hold a day is the month of the day. -/
theorem monthOf_eq {day month : ℤ} (low : monthStart month ≤ day)
    (high : day < monthStart (month + 1)) : monthOf day = month := by
  rcases monthOf_spec day with ⟨before, after⟩
  have notAbove : monthOf day < month + 1 :=
    monthStart_strictMono.lt_iff_lt.mp (lt_of_le_of_lt before high)
  have notBelow : month < monthOf day + 1 :=
    monthStart_strictMono.lt_iff_lt.mp (lt_of_le_of_lt low after)
  omega

theorem monthOf_monthStart (month : ℤ) : monthOf (monthStart month) = month :=
  monthOf_eq (le_refl _) (monthStart_lt_succ month)

example : monthStart (12 * 1970) = 0 ∧ monthStart (12 * 2024 + 2) = 19783 := by decide

end MikroLLM.Library
