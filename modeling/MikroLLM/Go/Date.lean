import Mathlib.Tactic.Common
import Mathlib.Tactic.Ring
import MikroLLM.Library.Calendar

/-!
# Dates in a zone

An instant is in nanoseconds since the beginning of 1970 in UTC. The zone is
known by how far it is ahead of UTC, in nanoseconds, and keeps that offset.
-/

namespace MikroLLM.Go

open Library

def hourLength : ℤ := 3600000000000

def dayLength : ℤ := 86400000000000

variable (offset t : ℤ)

/-- The day that a clock of the zone shows, counted from the beginning of 1970. -/
def dayNumber : ℤ :=
  (t + offset) / dayLength

/-- `t.Year()`. -/
def yearAt : ℤ :=
  monthOf (dayNumber offset t) / 12

/-- `t.Month()`, January being one. -/
def monthAt : ℤ :=
  monthOf (dayNumber offset t) % 12 + 1

/-- `t.Day()`. -/
def dayAt : ℤ :=
  dayNumber offset t - monthStart (monthOf (dayNumber offset t)) + 1

/-- `t.Hour()`. -/
def hourAt : ℤ :=
  (t + offset) % dayLength / hourLength

/-- `t.Weekday()`, Sunday being zero. -/
def weekdayAt : ℤ :=
  (dayNumber offset t + 4) % 7

/-- `time.Date` with the minutes and all below them zero. Months and days may be out of range. -/
def date (year month day hour : ℤ) : ℤ :=
  (monthStart (12 * year + (month - 1)) + (day - 1)) * dayLength + hour * hourLength - offset

/-- `t.AddDate`. -/
def addDate (years months days : ℤ) : ℤ :=
  date offset (yearAt offset t + years) (monthAt offset t + months) (dayAt offset t + days) 0 +
    (t + offset) % dayLength

/-- The start of the day of an instant. -/
theorem date_day : date offset (yearAt offset t) (monthAt offset t) (dayAt offset t) 0 =
    dayNumber offset t * dayLength - offset := by
  have isMonth : 12 * yearAt offset t + (monthAt offset t - 1) = monthOf (dayNumber offset t) := by
    simp only [yearAt, monthAt]
    omega
  rw [date, isMonth, dayAt]
  ring

variable {offset t}

theorem addDate_days (days : ℤ) : addDate offset t 0 0 days = t + days * dayLength := by
  have start := date_day offset t
  have more : addDate offset t 0 0 days =
      date offset (yearAt offset t) (monthAt offset t) (dayAt offset t) 0 + days * dayLength +
        (t + offset) % dayLength := by
    simp only [addDate, date, add_zero]
    ring
  have parts := Int.emod_add_mul_ediv (t + offset) dayLength
  rw [mul_comm dayLength] at parts
  rw [more, start, dayNumber]
  omega

section Months

/-- The start of a month. -/
def monthBegin (offset month : ℤ) : ℤ :=
  monthStart month * dayLength - offset

theorem dayNumber_monthBegin (month : ℤ) : dayNumber offset (monthBegin offset month) =
    monthStart month := by
  rw [dayNumber, monthBegin, sub_add_cancel, Int.mul_ediv_cancel _ (by decide)]

theorem date_month (year month : ℤ) :
    date offset year month 1 0 = monthBegin offset (12 * year + (month - 1)) := by
  rw [date, monthBegin]
  ring

theorem addDate_monthBegin (month years months : ℤ) :
    addDate offset (monthBegin offset month) years months 0 =
      monthBegin offset (month + 12 * years + months) := by
  have noClock : (monthBegin offset month + offset) % dayLength = 0 := by
    rw [monthBegin, sub_add_cancel, Int.mul_emod_left]
  have firstDay : dayAt offset (monthBegin offset month) = 1 := by
    rw [dayAt, dayNumber_monthBegin, monthOf_monthStart]
    omega
  have isMonth : 12 * (yearAt offset (monthBegin offset month) + years) +
      (monthAt offset (monthBegin offset month) + months - 1) = month + 12 * years + months := by
    rw [yearAt, monthAt, dayNumber_monthBegin, monthOf_monthStart]
    omega
  rw [addDate, noClock, firstDay, add_zero, add_zero, date_month, isMonth]

end Months

example : yearAt 0 1719000000000000000 = 2024 ∧ monthAt 0 1719000000000000000 = 6 ∧
    dayAt 0 1719000000000000000 = 21 ∧ hourAt 0 1719000000000000000 = 20 := by decide

end MikroLLM.Go
