import Mathlib.Tactic
import Timetable.Calendar.Date

/-! # Years and months of day numbers

`yearOf` is the one year between whose first and last day a day lies (`yearOf_eq_iff`), and the walk
through the lengths of the months finds the month and the day of the month that make up a day number
(`monthAndDay_eq`).  So the parts of `dayNumber year month day` are that year, that month and that day,
as long as there is such a day. -/

namespace Timetable.Gregorian

theorem daysBeforeYear_mono {y z : Nat} (hy : 1 ≤ y) (h : y ≤ z) :
    daysBeforeYear y ≤ daysBeforeYear z := by
  induction z, h using Nat.le_induction with
  | base => exact le_rfl
  | succ z hz ih =>
      rw [daysBeforeYear_succ (hy.trans hz)]
      split <;> omega

theorem yearOf_eq_iff {y n : Nat} (hy : 1 ≤ y) (hn : 1 ≤ n) :
    yearOf n = y ↔ daysBeforeYear y < n ∧ n ≤ daysBeforeYear (y + 1) := by
  have hlow := daysBefore_yearOf_lt hn
  have hhigh := le_daysBefore_yearOf_succ n
  constructor
  · rintro rfl
    exact ⟨hlow, hhigh⟩
  · rintro ⟨h1, h2⟩
    -- in another year the day would be before the end of one year and after the start of a later one
    rcases Nat.lt_trichotomy (yearOf n) y with hlt | heq | hgt
    · have := daysBeforeYear_mono (Nat.le_add_left 1 (yearOf n)) hlt
      omega
    · exact heq
    · have := daysBeforeYear_mono (Nat.le_add_left 1 y) hgt
      omega

theorem dayOfYear_eq {y n : Nat} (hy : 1 ≤ y) (h1 : daysBeforeYear y < n)
    (h2 : n ≤ daysBeforeYear (y + 1)) : dayOfYear n = n - daysBeforeYear y := by
  have : yearOf n = y := (yearOf_eq_iff hy (by omega)).mpr ⟨h1, h2⟩
  rw [dayOfYear, this]

/-! ### Months -/

/-- The walk stops at the month in which the day lies. -/
theorem splitMonths_take_sum_add : ∀ {lengths : List Nat} {k j : Nat}, 1 ≤ j →
    j ≤ lengths.getD k 0 → splitMonths lengths ((lengths.take k).sum + j) = (k, j)
  | [], k, j, hj, hk => by
      simp only [List.getD_nil] at hk
      omega
  | length :: lengths, 0, j, hj, hk => by
      simp only [List.getD_cons_zero] at hk
      simp [splitMonths, hk]
  | length :: lengths, k + 1, j, hj, hk => by
      rw [List.getD_cons_succ] at hk
      have ih := splitMonths_take_sum_add hj hk
      have hpast : ¬ length + (lengths.take k).sum + j ≤ length := by omega
      have hrest : length + (lengths.take k).sum + j - length = (lengths.take k).sum + j := by omega
      simp only [List.take_succ_cons, List.sum_cons, splitMonths, if_neg hpast, hrest, ih]

/-- The number of days in the months before the month with index `k`, from 0. -/
def daysBeforeMonth (leap : Bool) (k : Nat) : Nat :=
  ((monthLengths leap).take k).sum

/-- The length of the month with index `k`, from 0. -/
def monthLength (leap : Bool) (k : Nat) : Nat :=
  (monthLengths leap).getD k 0

theorem daysBeforeMonth_succ (leap : Bool) {k : Nat} (hk : k < 12) :
    daysBeforeMonth leap (k + 1) = daysBeforeMonth leap k + monthLength leap k := by
  cases leap <;> interval_cases k <;> rfl

theorem daysBeforeMonth_mono (leap : Bool) {k l : Nat} (h : k ≤ l) (hl : l ≤ 12) :
    daysBeforeMonth leap k ≤ daysBeforeMonth leap l := by
  induction l, h using Nat.le_induction with
  | base => exact le_rfl
  | succ l _ ih =>
      rw [daysBeforeMonth_succ leap (by omega)]
      exact (ih (by omega)).trans (Nat.le_add_right _ _)

theorem monthLength_bounds (leap : Bool) {k : Nat} (hk : k < 12) :
    28 ≤ monthLength leap k ∧ monthLength leap k ≤ 31 := by
  cases leap <;> interval_cases k <;> decide

theorem daysBeforeYear_add_twelve_months {y : Nat} (hy : 1 ≤ y) :
    daysBeforeYear (y + 1) = daysBeforeYear y + daysBeforeMonth (isLeap y) 12 := by
  rw [daysBeforeYear_succ hy]
  cases isLeap y <;> rfl

/-- The month with index `k` and the day `j` of it are the parts of their day number. -/
theorem monthAndDay_eq {y k j : Nat} (hy : 1 ≤ y) (hk : k < 12) (hj : 1 ≤ j)
    (hlen : j ≤ monthLength (isLeap y) k) :
    monthAndDay (daysBeforeYear y + daysBeforeMonth (isLeap y) k + j) = (k, j) := by
  have hmonth := daysBeforeMonth_mono (isLeap y) (Nat.succ_le_of_lt hk) le_rfl
  rw [Nat.succ_eq_add_one, daysBeforeMonth_succ _ hk] at hmonth
  have hyear := daysBeforeYear_add_twelve_months hy
  have hy' : yearOf (daysBeforeYear y + daysBeforeMonth (isLeap y) k + j) = y :=
    (yearOf_eq_iff hy (by omega)).mpr ⟨by omega, by omega⟩
  have hday : daysBeforeYear y + daysBeforeMonth (isLeap y) k + j - daysBeforeYear y
      = daysBeforeMonth (isLeap y) k + j := by omega
  rw [monthAndDay, dayOfYear, hy', hday]
  exact splitMonths_take_sum_add hj hlen

theorem monthOf_eq {y k j : Nat} (hy : 1 ≤ y) (hk : k < 12) (hj : 1 ≤ j)
    (hlen : j ≤ monthLength (isLeap y) k) :
    monthOf (daysBeforeYear y + daysBeforeMonth (isLeap y) k + j) = k + 1 := by
  rw [monthOf, monthAndDay_eq hy hk hj hlen]

theorem dayOfMonth_eq {y k j : Nat} (hy : 1 ≤ y) (hk : k < 12) (hj : 1 ≤ j)
    (hlen : j ≤ monthLength (isLeap y) k) :
    dayOfMonth (daysBeforeYear y + daysBeforeMonth (isLeap y) k + j) = j := by
  rw [dayOfMonth, monthAndDay_eq hy hk hj hlen]

end Timetable.Gregorian

namespace Timetable.Date

variable {d : Date}

/-- Before the year 2 there are 365 days. -/
theorem lt_number_of_two_le_year (h : 2 ≤ d.year) : 365 < d.number := by
  calc 365 = Gregorian.daysBeforeYear 2 := by decide
    _ ≤ Gregorian.daysBeforeYear d.year := Gregorian.daysBeforeYear_mono (by decide) h
    _ < d.number := Gregorian.daysBefore_yearOf_lt d.one_le

/-- After the year 9998 there are 365 days. -/
theorem number_add_le_of_year_le (h : d.year ≤ 9998) : d.number + 365 ≤ lastDay := by
  calc d.number + 365
    _ ≤ Gregorian.daysBeforeYear (d.year + 1) + 365 :=
      Nat.add_le_add_right (Gregorian.le_daysBefore_yearOf_succ d.number) 365
    _ ≤ Gregorian.daysBeforeYear 9999 + 365 :=
      Nat.add_le_add_right (Gregorian.daysBeforeYear_mono (by omega) (by omega)) 365
    _ = lastDay := by decide

end Timetable.Date
