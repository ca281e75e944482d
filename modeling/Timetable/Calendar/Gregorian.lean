/-! # The Gregorian calendar on day numbers

Days are numbered without a gap; day 1 is the first of January of the year 1, a Monday.  The year
of a day is the one with `daysBeforeYear y < n ≤ daysBeforeYear (y + 1)` (`daysBefore_yearOf_lt`,
`le_daysBefore_yearOf_succ`); its month is found by walking through the lengths of the months
(`splitMonths`).  Nothing here bounds the number of a day. -/

namespace Timetable.Gregorian

/-- Does the year have a 29th of February? -/
def isLeap (year : Nat) : Bool :=
  year % 4 == 0 && (year % 100 != 0 || year % 400 == 0)

/-- The number of days before the first of January of a year. -/
def daysBeforeYear (year : Nat) : Nat :=
  let past := year - 1
  365 * past + past / 4 - past / 100 + past / 400

/-- The year of a day.  Four hundred years have 146097 days, so the quotient is the right year or
the one before it. -/
def yearOf (day : Nat) : Nat :=
  let year := (day - 1) * 400 / 146097 + 1
  if daysBeforeYear (year + 1) < day then year + 1 else year

/-- The number of a day within its year, from 1. -/
def dayOfYear (day : Nat) : Nat :=
  day - daysBeforeYear (yearOf day)

/-- The lengths of the twelve months. -/
def monthLengths (leap : Bool) : List Nat :=
  [31, if leap then 29 else 28, 31, 30, 31, 30, 31, 31, 30, 31, 30, 31]

/-- Walks `day` through the months of the given lengths: the number of whole months before it, and
the number of the day within its month. -/
def splitMonths : List Nat → Nat → Nat × Nat
  | [], day => (0, day)
  | length :: lengths, day =>
    if day ≤ length then (0, day)
    else
      let (months, rest) := splitMonths lengths (day - length)
      (months + 1, rest)

/-- The months before a day in its year, and the number of the day in its month. -/
def monthAndDay (day : Nat) : Nat × Nat :=
  splitMonths (monthLengths (isLeap (yearOf day))) (dayOfYear day)

/-- The month of a day, from 1. -/
def monthOf (day : Nat) : Nat :=
  (monthAndDay day).1 + 1

/-- The number of a day within its month, from 1. -/
def dayOfMonth (day : Nat) : Nat :=
  (monthAndDay day).2

/-- The number of the day with a given year, month and day of the month. -/
def dayNumber (year month day : Nat) : Nat :=
  daysBeforeYear year + ((monthLengths (isLeap year)).take (month - 1)).foldr (· + ·) 0 + day

/-- The number of days since the last Monday. -/
def weekdayIndex (day : Nat) : Nat :=
  (day - 1) % 7

/-- The Thursday of the week of a day, the day that decides to which year the week belongs. -/
def thursdayOf (day : Nat) : Nat :=
  day - weekdayIndex day + 3

/-- The number of the week of a day by ISO 8601: the first week of a year is the one with its first
Thursday. -/
def weekOf (day : Nat) : Nat :=
  (dayOfYear (thursdayOf day) - 1) / 7 + 1

/-- A quotient grows when the dividend reaches a multiple. -/
theorem succ_div_eq (n k : Nat) :
    (n + 1) / k = n / k + if (n + 1) % k = 0 then 1 else 0 := by
  rw [Nat.succ_div]
  simp [Nat.dvd_iff_mod_eq_zero]

theorem daysBeforeYear_succ {year : Nat} (h : 1 ≤ year) :
    daysBeforeYear (year + 1) = daysBeforeYear year + (if isLeap year then 366 else 365) := by
  obtain ⟨past, rfl⟩ := Nat.exists_eq_add_of_le' h
  have h4 := succ_div_eq past 4
  have h100 := succ_div_eq past 100
  have h400 := succ_div_eq past 400
  have hle : past / 100 ≤ past / 4 := Nat.div_le_div_left (by decide) (by decide)
  have h1 : (past + 1) % 100 = 0 → (past + 1) % 4 = 0 := by omega
  have h2 : (past + 1) % 400 = 0 → (past + 1) % 100 = 0 := by omega
  simp only [daysBeforeYear, isLeap, Nat.add_sub_cancel, h4, h100, h400]
  generalize past / 4 = a at *
  generalize past / 100 = b at *
  generalize past / 400 = c at *
  by_cases e4 : (past + 1) % 4 = 0 <;> by_cases e100 : (past + 1) % 100 = 0 <;>
    by_cases e400 : (past + 1) % 400 = 0 <;> simp_all <;> omega

/-- The days before a year by centuries, groups of four years and single years. -/
theorem daysBeforeYear_eq (cycles centuries fours years : Nat) (hc : centuries < 4)
    (hf : fours < 25) (hy : years < 4) :
    daysBeforeYear (400 * cycles + 100 * centuries + 4 * fours + years + 1) =
      146097 * cycles + 36524 * centuries + 1461 * fours + 365 * years := by
  have h1 : (400 * cycles + 100 * centuries + 4 * fours + years) / 4
      = 100 * cycles + 25 * centuries + fours := by omega
  have h2 : (400 * cycles + 100 * centuries + 4 * fours + years) / 100
      = 4 * cycles + centuries := by omega
  have h3 : (400 * cycles + 100 * centuries + 4 * fours + years) / 400 = cycles := by omega
  simp only [daysBeforeYear, Nat.add_sub_cancel, h1, h2, h3]
  omega

/-- The first estimate of the year is the right year or the one before it. -/
theorem daysBeforeYear_estimate (q : Nat) :
    400 * daysBeforeYear (q + 1) ≤ 146097 * q + 399
      ∧ 146097 * (q + 1) ≤ 400 * daysBeforeYear (q + 1 + 1 + 1) := by
  have h := daysBeforeYear_eq (q / 400) (q % 400 / 100) (q % 100 / 4) (q % 4) (by omega) (by omega)
    (by omega)
  have hq : 400 * (q / 400) + 100 * (q % 400 / 100) + 4 * (q % 100 / 4) + q % 4 = q := by omega
  rw [hq] at h
  have h1 : daysBeforeYear (q + 1) + 365 ≤ daysBeforeYear (q + 1 + 1) := by
    rw [daysBeforeYear_succ (by omega : 1 ≤ q + 1)]
    split <;> omega
  have h2 : daysBeforeYear (q + 1 + 1) + 365 ≤ daysBeforeYear (q + 1 + 1 + 1) := by
    rw [daysBeforeYear_succ (by omega : 1 ≤ q + 1 + 1)]
    split <;> omega
  omega

theorem daysBefore_yearOf_lt {day : Nat} (h : 1 ≤ day) : daysBeforeYear (yearOf day) < day := by
  unfold yearOf
  dsimp only
  split
  · assumption
  · have := (daysBeforeYear_estimate ((day - 1) * 400 / 146097)).1
    omega

theorem le_daysBefore_yearOf_succ (day : Nat) : day ≤ daysBeforeYear (yearOf day + 1) := by
  unfold yearOf
  dsimp only
  split
  · have := (daysBeforeYear_estimate ((day - 1) * 400 / 146097)).2
    omega
  · omega

theorem one_le_yearOf (day : Nat) : 1 ≤ yearOf day := by
  unfold yearOf
  dsimp only
  split <;> omega

end Timetable.Gregorian
