import Timetable.Calendar.Gregorian
import Timetable.Calendar.Weekday

/-! # Dates

A date is a day of the years 1 to 9999, given by its number in the Gregorian calendar.  Steps that
would leave these years have no result: `addDays?` is `none` exactly when the sum is past the last
day. -/

namespace Timetable

/-- The number of the 31st of December 9999. -/
def lastDay : Nat := 3652059

/-- A day of the years 1 to 9999. -/
structure Date where
  number : Nat
  one_le : 1 ≤ number
  le_last : number ≤ lastDay
deriving DecidableEq, Repr

namespace Date

theorem number_inj {d e : Date} : d.number = e.number ↔ d = e := by
  cases d
  cases e
  simp

/-- The first of January of the year 1. -/
def first : Date := ⟨1, Nat.le_refl 1, by decide⟩

/-- The date with a given number, if that is a day of the years 1 to 9999. -/
def ofNumber? (number : Nat) : Option Date :=
  if h : 1 ≤ number ∧ number ≤ lastDay then some ⟨number, h.1, h.2⟩ else none

/-- The date with a given year, month and day of the month, if there is one. -/
def ofYearMonthDay? (year month day : Nat) : Option Date :=
  if 1 ≤ year ∧ year ≤ 9999 ∧ 1 ≤ month ∧ month ≤ 12 ∧ 1 ≤ day
      ∧ day ≤ (Gregorian.monthLengths (Gregorian.isLeap year)).getD (month - 1) 0 then
    ofNumber? (Gregorian.dayNumber year month day)
  else none

/-- The year. -/
def year (d : Date) : Nat := Gregorian.yearOf d.number

/-- The month, from 1. -/
def month (d : Date) : Nat := Gregorian.monthOf d.number

/-- The day of the month, from 1. -/
def day (d : Date) : Nat := Gregorian.dayOfMonth d.number

/-- The day of the week. -/
def weekday (d : Date) : Weekday := .afterMonday (Gregorian.weekdayIndex d.number)

/-- The number of the ISO 8601 week. -/
def week (d : Date) : Nat := Gregorian.weekOf d.number

/-- The date a number of days later, if it is in the calendar. -/
def addDays? (d : Date) (days : Nat) : Option Date :=
  if h : d.number + days ≤ lastDay then
    some ⟨d.number + days, Nat.le_add_right_of_le d.one_le, h⟩
  else none

theorem addDays?_eq_some_iff {d e : Date} {days : Nat} :
    d.addDays? days = some e ↔ e.number = d.number + days := by
  unfold addDays?
  split
  · simp [← number_inj, eq_comm]
  · have := e.le_last
    simp
    omega

theorem addDays?_eq_none_iff {d : Date} {days : Nat} :
    d.addDays? days = none ↔ lastDay < d.number + days := by
  unfold addDays?
  split <;> simp <;> omega

theorem weekday_eq_iff {d : Date} {w : Weekday} : d.weekday = w ↔ (d.number - 1) % 7 = w.index := by
  rw [← Weekday.index_inj, weekday, Weekday.index_afterMonday]
  unfold Gregorian.weekdayIndex
  omega

/-- A week later is the same weekday. -/
theorem weekday_addDays?_seven {d e : Date} (h : d.addDays? 7 = some e) : e.weekday = d.weekday := by
  have hn := addDays?_eq_some_iff.mp h
  have hd := weekday_eq_iff.mp (rfl : d.weekday = d.weekday)
  have := d.one_le
  rw [weekday_eq_iff]
  omega

end Date

end Timetable
