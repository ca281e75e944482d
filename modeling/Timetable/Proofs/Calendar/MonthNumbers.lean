import Timetable.Proofs.Calendar.Months

/-! # Months numbered without a gap

As days are, months are numbered without a gap; the January of the year 1 has number 0
(`Date.monthNumber`).  The month of a date is the one between whose first and last day the date lies
(`Date.monthNumber_eq_iff`), and each month ends 28 to 31 days after the one before it
(`Gregorian.daysBeforeMonthNumber_succ`).  The day of the month is what is left of the day's number
(`Date.number_eq_add_day`). -/

namespace Timetable

namespace Gregorian

/-- The walk through the months comes to a day of the month in which it stops. -/
theorem exists_splitMonths_eq : ∀ {lengths : List Nat} {day : Nat}, 1 ≤ day → day ≤ lengths.sum →
    ∃ k j, splitMonths lengths day = (k, j) ∧ k < lengths.length ∧ 1 ≤ j ∧ j ≤ lengths.getD k 0
      ∧ day = (lengths.take k).sum + j
  | [], day, h1, h2 => by
      rw [List.sum_nil] at h2
      omega
  | length :: lengths, day, h1, h2 => by
      by_cases hle : day ≤ length
      · exact ⟨0, day, by rw [splitMonths, if_pos hle], Nat.succ_pos _, h1, hle, by simp⟩
      · rw [List.sum_cons] at h2
        obtain ⟨k, j, heq, hk, hj, hlen, hday⟩ := exists_splitMonths_eq
          (show 1 ≤ day - length by omega) (show day - length ≤ lengths.sum by omega)
        refine ⟨k + 1, j, ?_, Nat.succ_lt_succ hk, hj, hlen, ?_⟩
        · rw [splitMonths, if_neg hle, heq]
        · rw [List.take_succ_cons, List.sum_cons]
          omega

/-- The number of days before the month with a given number. -/
def daysBeforeMonthNumber (n : Nat) : Nat :=
  daysBeforeYear (n / 12 + 1) + daysBeforeMonth (isLeap (n / 12 + 1)) (n % 12)

theorem daysBeforeMonthNumber_succ_eq (n : Nat) : daysBeforeMonthNumber (n + 1)
    = daysBeforeYear (n / 12 + 1) + daysBeforeMonth (isLeap (n / 12 + 1)) (n % 12 + 1) := by
  unfold daysBeforeMonthNumber
  rcases Nat.lt_or_ge (n % 12) 11 with hlt | hge
  · have hyear : (n + 1) / 12 = n / 12 := by omega
    have hmonth : (n + 1) % 12 = n % 12 + 1 := by omega
    rw [hyear, hmonth]
  · -- December is followed by the January of the next year
    have hyear : (n + 1) / 12 = n / 12 + 1 := by omega
    have hmonth : (n + 1) % 12 = 0 := by omega
    have hlast : n % 12 + 1 = 12 := by omega
    rw [hyear, hmonth, hlast, daysBeforeYear_add_twelve_months (Nat.le_add_left 1 _)]
    rfl

theorem daysBeforeMonthNumber_succ (n : Nat) :
    daysBeforeMonthNumber n + 28 ≤ daysBeforeMonthNumber (n + 1)
      ∧ daysBeforeMonthNumber (n + 1) ≤ daysBeforeMonthNumber n + 31 := by
  have hlt : n % 12 < 12 := Nat.mod_lt n (by decide)
  have hsucc := daysBeforeMonth_succ (isLeap (n / 12 + 1)) hlt
  have hbounds := monthLength_bounds (isLeap (n / 12 + 1)) hlt
  rw [daysBeforeMonthNumber_succ_eq, daysBeforeMonthNumber]
  omega

theorem daysBeforeMonthNumber_mono {m n : Nat} (h : m ≤ n) :
    daysBeforeMonthNumber m ≤ daysBeforeMonthNumber n := by
  induction n, h using Nat.le_induction with
  | base => exact le_rfl
  | succ n _ ih =>
      have := (daysBeforeMonthNumber_succ n).1
      omega

end Gregorian

namespace Date

open Gregorian

variable {d e : Date} {n : Nat}

/-- The number of the month, from the January of the year 1, which has number 0. -/
def monthNumber (d : Date) : Nat :=
  12 * (d.year - 1) + (d.month - 1)

/-- The parts of a date make up its number. -/
theorem number_eq_parts (d : Date) :
    d.month - 1 < 12 ∧ 1 ≤ d.day ∧ d.day ≤ monthLength (isLeap d.year) (d.month - 1)
      ∧ d.number = daysBeforeYear d.year + daysBeforeMonth (isLeap d.year) (d.month - 1) + d.day := by
  have hlow := daysBefore_yearOf_lt d.one_le
  have hhigh := le_daysBefore_yearOf_succ d.number
  have hyear := daysBeforeYear_add_twelve_months (one_le_yearOf d.number)
  have hall : daysBeforeMonth (isLeap d.year) 12 = (monthLengths (isLeap d.year)).sum := rfl
  have hday : dayOfYear d.number = d.number - daysBeforeYear d.year := rfl
  change daysBeforeYear d.year < d.number at hlow
  change d.number ≤ daysBeforeYear (d.year + 1) at hhigh
  change daysBeforeYear (d.year + 1)
    = daysBeforeYear d.year + daysBeforeMonth (isLeap d.year) 12 at hyear
  obtain ⟨k, j, heq, hk, hj, hlen, hsum⟩ := exists_splitMonths_eq
    (show 1 ≤ dayOfYear d.number by omega)
    (show dayOfYear d.number ≤ (monthLengths (isLeap d.year)).sum by omega)
  have hparts : monthAndDay d.number = (k, j) := heq
  have hmonth : d.month - 1 = k := by rw [month, monthOf, hparts, Nat.add_sub_cancel]
  have hd : d.day = j := by rw [day, dayOfMonth, hparts]
  rw [hmonth, hd]
  refine ⟨hk, hj, hlen, ?_⟩
  rw [daysBeforeMonth]
  omega

theorem month_eq (d : Date) : d.month = d.monthNumber % 12 + 1 := by
  have hmonth := d.number_eq_parts.1
  have hone : 1 ≤ d.month := Nat.le_add_left 1 _
  unfold monthNumber
  omega

/-- A date is in its month, as the day that it is of it. -/
theorem number_eq_add_day (d : Date) : d.number = daysBeforeMonthNumber d.monthNumber + d.day
    ∧ 1 ≤ d.day ∧ d.number ≤ daysBeforeMonthNumber (d.monthNumber + 1) := by
  obtain ⟨hmonth, hone, hlen, hnumber⟩ := d.number_eq_parts
  have hy : 1 ≤ d.year := one_le_yearOf d.number
  have hdiv : d.monthNumber / 12 + 1 = d.year := by
    unfold monthNumber
    omega
  have hmod : d.monthNumber % 12 = d.month - 1 := by
    unfold monthNumber
    omega
  have hsucc := daysBeforeMonth_succ (isLeap d.year) hmonth
  rw [daysBeforeMonthNumber_succ_eq, daysBeforeMonthNumber, hdiv, hmod]
  omega

theorem monthNumber_eq_iff : d.monthNumber = n ↔
    daysBeforeMonthNumber n < d.number ∧ d.number ≤ daysBeforeMonthNumber (n + 1) := by
  obtain ⟨hnumber, hone, hhigh⟩ := d.number_eq_add_day
  constructor
  · rintro rfl
    exact ⟨by omega, hhigh⟩
  · rintro ⟨h1, h2⟩
    -- the days of two different months do not overlap
    rcases Nat.lt_trichotomy d.monthNumber n with hlt | heq | hgt
    · have := daysBeforeMonthNumber_mono (show d.monthNumber + 1 ≤ n from hlt)
      omega
    · exact heq
    · have := daysBeforeMonthNumber_mono (show n + 1 ≤ d.monthNumber from hgt)
      omega

theorem monthNumber_mono (h : d.number ≤ e.number) : d.monthNumber ≤ e.monthNumber := by
  by_contra hlt
  have hmono := daysBeforeMonthNumber_mono (show e.monthNumber + 1 ≤ d.monthNumber by omega)
  have hd := (monthNumber_eq_iff.mp (rfl : d.monthNumber = d.monthNumber)).1
  have he := (monthNumber_eq_iff.mp (rfl : e.monthNumber = e.monthNumber)).2
  omega

/-- The months of the calendar are those before the one with number 12 * 9999. -/
theorem daysBeforeMonthNumber_end : daysBeforeMonthNumber (12 * 9999) = lastDay := by
  decide

theorem monthNumber_lt (d : Date) : d.monthNumber < 12 * 9999 := by
  by_contra hge
  have hmono := daysBeforeMonthNumber_mono (show 12 * 9999 ≤ d.monthNumber by omega)
  have hd := (monthNumber_eq_iff.mp (rfl : d.monthNumber = d.monthNumber)).1
  have hlast := d.le_last
  rw [daysBeforeMonthNumber_end] at hmono
  omega

end Date

end Timetable
