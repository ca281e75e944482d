import Timetable.Proofs.Calendar.MonthNumbers
import Timetable.Proofs.Occurrence.WithinYear

/-! # The weekdays that a modifier names

A modifier names one date of each weekday in a month: the first to the fourth, counted from the first of
the month, or the last one (`Modifier.Names`).  This date is the one in seven days of the month
(`Modifier.names_iff_inWindow`), and so are those on which the modifier holds
(`Modifier.inWindow_of_holds?`, `Modifier.holds?_of_inWindow`).  There is one in each month
(`Modifier.exists_inWindow`), and not another one (`Modifier.eq_of_inWindow`). -/

namespace Timetable

open Gregorian

/-- The date is the one of its weekday that the modifier names in its month: with the dates of this weekday
from the first of the month on it makes up the number of the occurrence, or there is no later one of them
in the month. -/
def Modifier.Names (m : Modifier) (d : Date) : Prop :=
  match m.ordinal? with
  | some k => {e : Date | e.monthNumber = d.monthNumber ∧ e.weekday = d.weekday
      ∧ e.number ≤ d.number}.ncard = k
  | none => ∀ e : Date, e.monthNumber = d.monthNumber → e.weekday = d.weekday → e.number ≤ d.number

/-- The number of days before the seven that hold the occurrence in the month with a given number. -/
def Modifier.daysBefore (m : Modifier) (n : Nat) : Nat :=
  daysBeforeYear (n / 12 + 1) + m.before (isLeap (n / 12 + 1)) (n % 12)

/-- The date is in the seven days of its month that hold the occurrence. -/
def Modifier.InWindow (m : Modifier) (d : Date) : Prop :=
  m.daysBefore d.monthNumber < d.number ∧ d.number ≤ m.daysBefore d.monthNumber + 7

/-! ### Dates of one weekday in a month -/

/-- Every seven days of the month there is one more date of each weekday. -/
theorem Date.ncard_weekday_le (d : Date) :
    {e : Date | e.monthNumber = d.monthNumber ∧ e.weekday = d.weekday
      ∧ e.number ≤ d.number}.ncard = (d.day + 6) / 7 := by
  obtain ⟨hnumber, hone, hhigh⟩ := d.number_eq_add_day
  have hset : {e : Date | e.monthNumber = d.monthNumber ∧ e.weekday = d.weekday ∧ e.number ≤ d.number}
      = {e : Date | daysBeforeMonthNumber d.monthNumber < e.number ∧ e.number ≤ d.number
          ∧ e.weekday = d.weekday} := by
    ext e
    simp only [Set.mem_ofPred_eq, monthNumber_eq_iff]
    constructor
    · rintro ⟨⟨hafter, -⟩, hw, hle⟩
      exact ⟨hafter, hle, hw⟩
    · rintro ⟨hafter, hle, hw⟩
      exact ⟨⟨hafter, hle.trans hhigh⟩, hw, hle⟩
  rw [hset, ncard_weekday_after (by omega)]
  congr 1
  omega

namespace Modifier

variable {m : Modifier} {d e : Date} {n : Nat}

/-! ### The seven days of an occurrence -/

theorem daysBefore_eq (m : Modifier) (n : Nat) : m.daysBefore n = match m.ordinal? with
    | some k => daysBeforeMonthNumber n + 7 * (k - 1)
    | none => daysBeforeMonthNumber (n + 1) - 7 := by
  have hlast : n % 12 < 12 := Nat.mod_lt n (by decide)
  have hlength := daysBeforeMonth_succ (isLeap (n / 12 + 1)) hlast
  have hbounds := monthLength_bounds (isLeap (n / 12 + 1)) hlast
  rw [daysBeforeMonthNumber_succ_eq]
  cases m <;> simp only [daysBefore, before, ordinal?, daysBeforeMonthNumber] <;> omega

/-- The seven days are in the month. -/
theorem daysBefore_bounds (m : Modifier) (n : Nat) : daysBeforeMonthNumber n ≤ m.daysBefore n
    ∧ m.daysBefore n + 7 ≤ daysBeforeMonthNumber (n + 1) := by
  have hlast : n % 12 < 12 := Nat.mod_lt n (by decide)
  have hle := m.le_before (isLeap (n / 12 + 1)) hlast
  have hge := m.before_le (isLeap (n / 12 + 1)) hlast
  rw [daysBeforeMonthNumber_succ_eq, daysBeforeMonthNumber, daysBefore]
  omega

theorem inWindow_of_holds? (h : m.holds? d = some true) : m.InWindow d := by
  obtain ⟨hnumber, hone, hhigh⟩ := d.number_eq_add_day
  rw [InWindow, daysBefore_eq]
  cases m with
  | last =>
      obtain ⟨next, hnext, hmonth⟩ := Option.map_eq_some_iff.mp h
      have hn := Date.addDays?_eq_some_iff.mp hnext
      have hlen := (daysBeforeMonthNumber_succ d.monthNumber).1
      -- a week later it is not the same month
      have hother : daysBeforeMonthNumber (d.monthNumber + 1) < next.number := by
        by_contra hle
        have hsame : next.monthNumber = d.monthNumber :=
          Date.monthNumber_eq_iff.mpr ⟨by omega, by omega⟩
        rw [Date.month_eq, Date.month_eq, hsame] at hmonth
        simp at hmonth
      simp only [ordinal?]
      omega
  | _ =>
      simp only [holds?, Option.some.injEq, Bool.and_eq_true, decide_eq_true_eq] at h
      simp only [ordinal?]
      omega

theorem holds?_of_inWindow (hroom : d.number + 7 ≤ lastDay) (h : m.InWindow d) :
    m.holds? d = some true :=
  holds?_of_window (Nat.le_add_left 1 _) (Nat.mod_lt _ (by decide)) hroom h.1 h.2

theorem names_iff_inWindow : m.Names d ↔ m.InWindow d := by
  obtain ⟨hnumber, hone, hhigh⟩ := d.number_eq_add_day
  have hend := daysBeforeMonthNumber_mono (show d.monthNumber + 1 ≤ 12 * 9999 from d.monthNumber_lt)
  rw [Date.daysBeforeMonthNumber_end] at hend
  rw [InWindow, daysBefore_eq]
  cases m with
  | last =>
      simp only [Names, ordinal?]
      constructor
      · intro hlast
        refine ⟨?_, by omega⟩
        by_contra hlow
        obtain ⟨e, he⟩ := Date.exists_number (n := d.number + 7) (by omega) (by omega)
        have hle := hlast e (Date.monthNumber_eq_iff.mpr ⟨by omega, by omega⟩)
          (Date.weekday_eq_weekday_iff.mpr (by omega))
        omega
      · rintro ⟨hlow, -⟩ e hem hew
        have hmod := Date.weekday_eq_weekday_iff.mp hew
        have hehigh := (Date.monthNumber_eq_iff.mp hem).2
        omega
  | _ =>
      simp only [Names, ordinal?, Date.ncard_weekday_le]
      omega

/-! ### One date in each month -/

/-- In each month of the calendar there is a date of each weekday that the modifier names. -/
theorem exists_inWindow (m : Modifier) (w : Weekday) (hn : n < 12 * 9999) :
    ∃ d : Date, d.monthNumber = n ∧ d.weekday = w ∧ m.InWindow d := by
  obtain ⟨hlow, hhigh⟩ := m.daysBefore_bounds n
  obtain ⟨hafter, hbefore⟩ := firstAfter_bounds (m.daysBefore n) w.index
  have hend := daysBeforeMonthNumber_mono (show n + 1 ≤ 12 * 9999 from hn)
  rw [Date.daysBeforeMonthNumber_end] at hend
  obtain ⟨d, hd⟩ := Date.exists_number (n := firstAfter (m.daysBefore n) w.index) (by omega) (by omega)
  have hmonth : d.monthNumber = n := Date.monthNumber_eq_iff.mpr ⟨by omega, by omega⟩
  refine ⟨d, hmonth, Date.weekday_eq_iff.mpr ?_, ?_⟩
  · rw [hd]
    exact weekdayIndex_firstAfter w.index_lt
  · rw [InWindow, hmonth, hd]
    exact ⟨hafter, hbefore⟩

/-- Of each weekday, the modifier names one date in a month only. -/
theorem eq_of_inWindow (hd : m.InWindow d) (he : m.InWindow e) (hmonth : d.monthNumber = e.monthNumber)
    (hw : d.weekday = e.weekday) : d = e := by
  obtain ⟨hdlow, hdhigh⟩ := hd
  obtain ⟨helow, hehigh⟩ := he
  have hmod := Date.weekday_eq_weekday_iff.mp hw
  rw [hmonth] at hdlow hdhigh
  exact Date.number_inj.mp (by omega)

end Modifier

end Timetable
