import Timetable.Proofs.Calendar.Months
import Timetable.Proofs.Calendar.Order

/-! # The weeks of ISO 8601

A week belongs to the year of its Thursday (`Date.weekYear`), and it is the week of this year that has the
first Thursday of it, the second, and so on (`Date.ncard_thursdays`).  A week later it is the next week of
the same year, or the first one of the next year; then the year has had 52 or 53 weeks, and no later one than
this (`Date.week_later`). -/

namespace Timetable

open Gregorian

namespace Date

variable {d e : Date} {y : Nat}

/-- The Thursday of the week of a date.  It is always in the calendar, as the last week of the calendar ends
with a Friday. -/
def thursday (d : Date) : Date where
  number := thursdayOf d.number
  one_le := by
    unfold thursdayOf
    omega
  le_last := by
    have hlast := d.le_last
    unfold thursdayOf weekdayIndex
    unfold lastDay at hlast ⊢
    omega

/-- The year to which ISO 8601 counts the week of a date. -/
def weekYear (d : Date) : Nat :=
  d.thursday.year

theorem thursday_number_mod (d : Date) : d.thursday.number % 7 = 4 := by
  have hone := d.one_le
  change (d.number - (d.number - 1) % 7 + 3) % 7 = 4
  omega

theorem weekday_thursday (d : Date) : d.thursday.weekday = .thursday := by
  have hmod := d.thursday_number_mod
  rw [weekday_eq_iff]
  change (d.thursday.number - 1) % 7 = 3
  omega

theorem thursday_number_add (h : e.number = d.number + 7) :
    e.thursday.number = d.thursday.number + 7 := by
  have hone := d.one_le
  change e.number - (e.number - 1) % 7 + 3 = d.number - (d.number - 1) % 7 + 3 + 7
  omega

theorem weekYear_eq_iff (hy : 1 ≤ y) : d.weekYear = y ↔
    daysBeforeYear y < d.thursday.number ∧ d.thursday.number ≤ daysBeforeYear (y + 1) :=
  yearOf_eq_iff hy d.thursday.one_le

theorem week_eq (d : Date) :
    d.week = (d.thursday.number - daysBeforeYear d.weekYear - 1) / 7 + 1 :=
  rfl

theorem week_le (d : Date) : d.week ≤ 53 := by
  have hy : 1 ≤ d.weekYear := one_le_yearOf _
  obtain ⟨-, hhigh⟩ := (weekYear_eq_iff hy).mp (rfl : d.weekYear = d.weekYear)
  have hlength : daysBeforeYear (d.weekYear + 1) ≤ daysBeforeYear d.weekYear + 366 := by
    rw [daysBeforeYear_succ hy]
    split <;> omega
  rw [week_eq]
  omega

/-- The number of a week is that of the Thursdays of its year up to its own Thursday. -/
theorem ncard_thursdays (d : Date) :
    {e : Date | e.year = d.weekYear ∧ e.weekday = .thursday ∧ e.number ≤ d.thursday.number}.ncard
      = d.week := by
  have hy : 1 ≤ d.weekYear := one_le_yearOf _
  obtain ⟨hlow, hhigh⟩ := (weekYear_eq_iff hy).mp (rfl : d.weekYear = d.weekYear)
  have hset : {e : Date | e.year = d.weekYear ∧ e.weekday = .thursday ∧ e.number ≤ d.thursday.number}
      = {e : Date | daysBeforeYear d.weekYear < e.number ∧ e.number ≤ d.thursday.number
          ∧ e.weekday = d.thursday.weekday} := by
    ext e
    have hyear : e.year = d.weekYear ↔ _ := yearOf_eq_iff hy e.one_le
    simp only [Set.mem_ofPred_eq, hyear, weekday_thursday]
    constructor
    · rintro ⟨⟨hafter, -⟩, hw, hle⟩
      exact ⟨hafter, hle, hw⟩
    · rintro ⟨hafter, hle, hw⟩
      exact ⟨⟨hafter, hle.trans hhigh⟩, hw, hle⟩
  rw [hset, ncard_weekday_after hlow, week_eq]
  omega

/-- A week later it is the next week of the same year, or the first week of the next year, after the last
week of this one. -/
theorem week_later (h : e.number = d.number + 7) :
    e.weekYear = d.weekYear ∧ e.week = d.week + 1
      ∨ e.weekYear = d.weekYear + 1 ∧ e.week = 1 ∧ 52 ≤ d.week
        ∧ ∀ f : Date, f.weekYear = d.weekYear → f.week ≤ d.week := by
  have hy : 1 ≤ d.weekYear := one_le_yearOf _
  have hlater := thursday_number_add h
  obtain ⟨hlow, hhigh⟩ := (weekYear_eq_iff hy).mp (rfl : d.weekYear = d.weekYear)
  have hlength : daysBeforeYear d.weekYear + 365 ≤ daysBeforeYear (d.weekYear + 1) := by
    rw [daysBeforeYear_succ hy]
    split <;> omega
  by_cases hsame : e.thursday.number ≤ daysBeforeYear (d.weekYear + 1)
  · have hyear : e.weekYear = d.weekYear := (weekYear_eq_iff hy).mpr ⟨by omega, hsame⟩
    refine .inl ⟨hyear, ?_⟩
    rw [week_eq, week_eq, hyear]
    omega
  · have hnext : daysBeforeYear (d.weekYear + 1) ≤ daysBeforeYear (d.weekYear + 1 + 1) :=
      daysBeforeYear_mono (Nat.le_add_left 1 _) (Nat.le_succ _)
    have hlength' : daysBeforeYear (d.weekYear + 1) + 365 ≤ daysBeforeYear (d.weekYear + 1 + 1) := by
      rw [daysBeforeYear_succ (Nat.le_add_left 1 _)]
      split <;> omega
    have hyear : e.weekYear = d.weekYear + 1 :=
      (weekYear_eq_iff (Nat.le_add_left 1 _)).mpr ⟨by omega, by omega⟩
    refine .inr ⟨hyear, ?_, ?_, fun f hf => ?_⟩
    · rw [week_eq, hyear]
      omega
    · rw [week_eq]
      omega
    · have hfhigh := ((weekYear_eq_iff hy).mp hf).2
      have hdmod := d.thursday_number_mod
      have hfmod := f.thursday_number_mod
      rw [week_eq, week_eq, hf]
      omega

end Date

end Timetable
