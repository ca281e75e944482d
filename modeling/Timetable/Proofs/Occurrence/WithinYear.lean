import Timetable.Occurrence.Rule
import Timetable.Proofs.Calendar.Months
import Timetable.Proofs.Calendar.Order

/-! # Every rule is met within a year

The occurrence of a weekday that a modifier names lies in seven days of the month (`Modifier.before`,
`Modifier.holds?_of_window`).  From one month to the next it moves on by four or by five weeks
(`Modifier.day_gap`), and in five months in a row not by four weeks every time; so, as long as the weeks
are counted in one year, numbers of both parities come up among these five (`exists_parity`).  February
to June and July to November are such months (`exists_occurrence`), and from any date one of these spans
ends within 52 weeks (`Rule.exists_within_year`). -/

namespace Timetable

open Gregorian

/-! ### The seven days of an occurrence -/

namespace Modifier

/-- The number of days of the year before the seven days that hold the occurrence in the month with
index `k`. -/
def before (m : Modifier) (leap : Bool) (k : Nat) : Nat :=
  match m with
  | first => daysBeforeMonth leap k
  | second => daysBeforeMonth leap k + 7
  | third => daysBeforeMonth leap k + 14
  | fourth => daysBeforeMonth leap k + 21
  | last => daysBeforeMonth leap (k + 1) - 7

theorem le_before (m : Modifier) (leap : Bool) {k : Nat} (hk : k < 12) :
    daysBeforeMonth leap k ≤ m.before leap k := by
  have hlen := monthLength_bounds leap hk
  have hsucc := daysBeforeMonth_succ leap hk
  cases m <;> simp only [before] <;> omega

theorem before_le (m : Modifier) (leap : Bool) {k : Nat} (hk : k < 12) :
    m.before leap k + 7 ≤ daysBeforeMonth leap (k + 1) := by
  have hlen := monthLength_bounds leap hk
  have hsucc := daysBeforeMonth_succ leap hk
  cases m <;> simp only [before] <;> omega

/-- A week after one of the last seven days of a month is another month. -/
theorem month_ne_of_last_week {d next : Date} {y k j : Nat} (hy : 1 ≤ y) (hk : k < 12)
    (hj : 1 ≤ j) (hlen : j ≤ monthLength (isLeap y) k) (hlast : monthLength (isLeap y) k < j + 7)
    (hd : d.number = daysBeforeYear y + daysBeforeMonth (isLeap y) k + j)
    (hnext : next.number = d.number + 7) : next.month ≠ d.month := by
  have hd' : d.month = k + 1 := by
    rw [Date.month, hd, monthOf_eq hy hk hj hlen]
  rcases Nat.lt_or_ge (k + 1) 12 with hk' | hk'
  · have hbounds := monthLength_bounds (isLeap y) hk'
    have hsucc := daysBeforeMonth_succ (isLeap y) hk
    have hn : next.number = daysBeforeYear y + daysBeforeMonth (isLeap y) (k + 1)
        + (j + 7 - monthLength (isLeap y) k) := by omega
    rw [hd', Date.month, hn, monthOf_eq hy hk' (by omega) (by omega)]
    omega
  · -- December is followed by the January of the next year
    have hbounds := monthLength_bounds (isLeap (y + 1)) (by decide : 0 < 12)
    have hyear := daysBeforeYear_add_twelve_months hy
    have h0 : daysBeforeMonth (isLeap (y + 1)) 0 = 0 := rfl
    obtain rfl : k = 11 := by omega
    have hsucc : daysBeforeMonth (isLeap y) 12
        = daysBeforeMonth (isLeap y) 11 + monthLength (isLeap y) 11 := daysBeforeMonth_succ _ hk
    have hn : next.number = daysBeforeYear (y + 1) + daysBeforeMonth (isLeap (y + 1)) 0
        + (j + 7 - monthLength (isLeap y) 11) := by omega
    rw [hd', Date.month, hn, monthOf_eq (by omega) (by decide) (by omega) (by omega)]
    decide

theorem holds?_of_window {m : Modifier} {d : Date} {y k : Nat} (hy : 1 ≤ y) (hk : k < 12)
    (hroom : d.number + 7 ≤ lastDay)
    (h1 : daysBeforeYear y + m.before (isLeap y) k < d.number)
    (h2 : d.number ≤ daysBeforeYear y + m.before (isLeap y) k + 7) :
    m.holds? d = some true := by
  have hle := m.le_before (isLeap y) hk
  have hge := m.before_le (isLeap y) hk
  have hsucc := daysBeforeMonth_succ (isLeap y) hk
  obtain ⟨j, hj⟩ : ∃ j, d.number = daysBeforeYear y + daysBeforeMonth (isLeap y) k + j :=
    ⟨d.number - (daysBeforeYear y + daysBeforeMonth (isLeap y) k), by omega⟩
  have hday : d.day = j := by
    rw [Date.day, hj, dayOfMonth_eq hy hk (by omega) (by omega)]
  cases m with
  | last =>
      simp only [before] at h1
      obtain ⟨next, hnext⟩ : ∃ next, d.addDays? 7 = some next :=
        Option.ne_none_iff_exists'.mp fun h => by
          have := Date.addDays?_eq_none_iff.mp h
          omega
      have hne := month_ne_of_last_week hy hk (by omega) (by omega) (by omega) hj
        (Date.addDays?_eq_some_iff.mp hnext)
      simp [holds?, hnext, hne]
  | _ =>
      simp only [before] at h1 h2
      simp only [holds?, hday, Option.some.injEq, Bool.and_eq_true, decide_eq_true_eq]
      omega

end Modifier

/-! ### Five months in a row -/

/-- Numbers that move on by four or five weeks, not by four each time, are in weeks of both
parities. -/
theorem exists_parity (p : Parity) {x : Nat → Nat}
    (hgap : ∀ i < 4, x (i + 1) = x i + 28 ∨ x (i + 1) = x i + 35) (hsum : x 4 ≠ x 0 + 112) :
    ∃ i < 5, p.holds (x i / 7 + 1) = true := by
  by_contra hnone
  push Not at hnone
  have h0 := hnone 0 (by decide)
  have h1 := hnone 1 (by decide)
  have h2 := hnone 2 (by decide)
  have h3 := hnone 3 (by decide)
  have h4 := hnone 4 (by decide)
  have g0 : x 1 = x 0 + 28 ∨ x 1 = x 0 + 35 := hgap 0 (by decide)
  have g1 : x 2 = x 1 + 28 ∨ x 2 = x 1 + 35 := hgap 1 (by decide)
  have g2 : x 3 = x 2 + 28 ∨ x 3 = x 2 + 35 := hgap 2 (by decide)
  have g3 : x 4 = x 3 + 28 ∨ x 4 = x 3 + 35 := hgap 3 (by decide)
  cases p <;> simp only [Parity.holds, beq_iff_eq, ne_eq] at h0 h1 h2 h3 h4 <;> omega

/-- The first day after a day that has a given place in the week. -/
def firstAfter (day index : Nat) : Nat :=
  day + 1 + (index + (7 - day % 7)) % 7

theorem firstAfter_bounds (day index : Nat) :
    day < firstAfter day index ∧ firstAfter day index ≤ day + 7 := by
  unfold firstAfter
  omega

theorem weekdayIndex_firstAfter {day index : Nat} (h : index < 7) :
    weekdayIndex (firstAfter day index) = index := by
  unfold firstAfter weekdayIndex
  omega

theorem firstAfter_gap {a b : Nat} (index : Nat) (h1 : a + 28 ≤ b) (h2 : b ≤ a + 31) :
    firstAfter b index = firstAfter a index + 28 ∨ firstAfter b index = firstAfter a index + 35 := by
  unfold firstAfter
  omega

theorem weekOf_eq {y n : Nat} (hy : 1 ≤ y) (h1 : daysBeforeYear y < thursdayOf n)
    (h2 : thursdayOf n ≤ daysBeforeYear (y + 1)) :
    weekOf n = (thursdayOf n - daysBeforeYear y - 1) / 7 + 1 := by
  rw [weekOf, dayOfYear_eq hy h1 h2]

theorem Modifier.before_gap (m : Modifier) (leap : Bool) {k i : Nat} (hk : k = 1 ∨ k = 6)
    (hi : i < 4) : m.before leap (k + i) + 28 ≤ m.before leap (k + (i + 1))
      ∧ m.before leap (k + (i + 1)) ≤ m.before leap (k + i) + 31 := by
  rcases hk with rfl | rfl <;> interval_cases i <;> cases leap <;> cases m <;> decide

theorem Modifier.before_five (m : Modifier) (leap : Bool) {k : Nat} (hk : k = 1 ∨ k = 6) :
    m.before leap k + 120 ≤ m.before leap (k + 4) := by
  rcases hk with rfl | rfl <;> cases leap <;> cases m <;> decide

/-! ### The days of an occurrence -/

namespace Modifier

variable (m : Modifier) (y : Nat) (w : Weekday) {k i : Nat}

/-- The day of a weekday that the modifier names in the month with index `k` of a year. -/
def day (k : Nat) : Nat :=
  firstAfter (daysBeforeYear y + m.before (isLeap y) k) w.index

theorem before_lt_day : daysBeforeYear y + m.before (isLeap y) k < m.day y w k :=
  (firstAfter_bounds _ _).1

theorem day_le_before : m.day y w k ≤ daysBeforeYear y + m.before (isLeap y) k + 7 :=
  (firstAfter_bounds _ _).2

theorem weekdayIndex_day : weekdayIndex (m.day y w k) = w.index :=
  weekdayIndex_firstAfter w.index_lt

theorem daysBeforeMonth_lt_day (hk : k < 12) :
    daysBeforeYear y + daysBeforeMonth (isLeap y) k < m.day y w k := by
  have hle := m.le_before (isLeap y) hk
  have hlt := m.before_lt_day y w (k := k)
  omega

theorem day_le_daysBeforeMonth (hk : k < 12) :
    m.day y w k ≤ daysBeforeYear y + daysBeforeMonth (isLeap y) (k + 1) := by
  have hle := m.before_le (isLeap y) hk
  have hlt := m.day_le_before y w (k := k)
  omega

/-- From February to November the weeks of these days are counted in their own year. -/
theorem weekOf_day {y : Nat} (hy : 1 ≤ y) (h1 : 1 ≤ k) (h11 : k < 11) :
    weekOf (m.day y w k) = (m.day y w k - w.index + 2 - daysBeforeYear y) / 7 + 1 := by
  have hw := w.index_lt
  have hlow := m.daysBeforeMonth_lt_day y w (by omega : k < 12)
  have hhigh := m.day_le_daysBeforeMonth y w (by omega : k < 12)
  have hfirst := daysBeforeMonth_mono (isLeap y) h1 (by omega)
  have hlast := daysBeforeMonth_mono (isLeap y) (by omega : k + 1 ≤ 11) (by decide)
  have hyear := daysBeforeYear_add_twelve_months hy
  have hsize (leap : Bool) : daysBeforeMonth leap 1 = 31
      ∧ daysBeforeMonth leap 11 + 31 = daysBeforeMonth leap 12 := by
    cases leap <;> decide
  have hsize := hsize (isLeap y)
  have hthursday : thursdayOf (m.day y w k) = m.day y w k - w.index + 3 := by
    rw [thursdayOf, weekdayIndex_day]
  rw [weekOf_eq hy (by omega) (by omega), hthursday]
  congr 2
  omega

theorem day_gap (hk : k = 1 ∨ k = 6) (hi : i < 4) :
    m.day y w (k + (i + 1)) = m.day y w (k + i) + 28
      ∨ m.day y w (k + (i + 1)) = m.day y w (k + i) + 35 := by
  have hgap := m.before_gap (isLeap y) hk hi
  exact firstAfter_gap w.index (by omega) (by omega)

/-- Among five months in a row there is one in which the day is in a week of the parity. -/
theorem exists_parity_day {y : Nat} (hy : 1 ≤ y) (hk : k = 1 ∨ k = 6) (p : Parity) :
    ∃ i < 5, p.holds (weekOf (m.day y w (k + i))) = true := by
  have hw := w.index_lt
  have hlow (i : Nat) (hi : i < 5) : daysBeforeYear y + 31 < m.day y w (k + i) := by
    have hlt := m.daysBeforeMonth_lt_day y w (by omega : k + i < 12)
    have hmono := daysBeforeMonth_mono (isLeap y) (by omega : 1 ≤ k + i) (by omega)
    have hsize : daysBeforeMonth (isLeap y) 1 = 31 := by cases isLeap y <;> decide
    omega
  obtain ⟨i, hi, hp⟩ := exists_parity p
    (x := fun i => m.day y w (k + i) - w.index + 2 - daysBeforeYear y)
    (by
      intro i hi
      have hgap := m.day_gap y w hk hi
      have h1 := hlow i (by omega)
      omega)
    (by
      have hfive := m.before_five (isLeap y) hk
      have h0 := m.day_le_before y w (k := k)
      have h4 := m.before_lt_day y w (k := k + 4)
      have h1 := hlow 0 (by decide)
      simp only [Nat.add_zero] at h1 ⊢
      omega)
  refine ⟨i, hi, ?_⟩
  rw [m.weekOf_day w hy (by omega) (by omega)]
  exact hp

end Modifier

/-- In February to June, and again in July to November, a modifier names a day of each weekday in a
week of each parity. -/
theorem exists_occurrence {y : Nat} (hy : 1 ≤ y) (m : Modifier) (p : Parity) (w : Weekday) {k : Nat}
    (hk : k = 1 ∨ k = 6) :
    ∃ n, daysBeforeYear y + daysBeforeMonth (isLeap y) k < n
      ∧ n ≤ daysBeforeYear y + daysBeforeMonth (isLeap y) (k + 5)
      ∧ weekdayIndex n = w.index ∧ p.holds (weekOf n) = true
      ∧ ∀ d : Date, d.number = n → d.number + 7 ≤ lastDay → m.holds? d = some true := by
  obtain ⟨i, hi, hp⟩ := m.exists_parity_day w hy hk p
  have hlow := m.daysBeforeMonth_lt_day y w (by omega : k + i < 12)
  have hhigh := m.day_le_daysBeforeMonth y w (by omega : k + i < 12)
  have hafter := daysBeforeMonth_mono (isLeap y) (Nat.le_add_right k i) (by omega)
  have hbefore := daysBeforeMonth_mono (isLeap y) (by omega : k + i + 1 ≤ k + 5) (by omega)
  refine ⟨m.day y w (k + i), by omega, by omega, m.weekdayIndex_day y w, hp, ?_⟩
  intro d hd hroom
  refine Modifier.holds?_of_window hy (by omega : k + i < 12) hroom ?_ ?_
  · rw [hd]
    exact m.before_lt_day y w
  · rw [hd]
    exact m.day_le_before y w

/-! ### Rules -/

theorem Rule.holds?_of_modifier_of_parity {rule : Rule} {d : Date} {m : Modifier} {p : Parity}
    (hm : m.holds? d = some true) (hp : p.holds d.week = true)
    (hrule : rule.modifier = none ∨ rule.modifier = some m)
    (hparity : rule.parity = none ∨ rule.parity = some p) : rule.holds? d = some true := by
  rcases hrule with hm' | hm' <;> rcases hparity with hp' | hp' <;>
    simp [holds?, modifierHolds?, parityHolds, hm', hp', hm, hp]

/-- A day found by `exists_occurrence` that is not too far away satisfies the rule. -/
theorem Rule.exists_of_day {rule : Rule} {d : Date} {m : Modifier} {p : Parity}
    (hrule : rule.modifier = none ∨ rule.modifier = some m)
    (hparity : rule.parity = none ∨ rule.parity = some p) {n : Nat} (h1 : d.number ≤ n)
    (h2 : n ≤ d.number + 52 * 7) (hend : n + 7 ≤ lastDay) (hw : weekdayIndex n = d.weekday.index)
    (hp : p.holds (weekOf n) = true)
    (hm : ∀ e : Date, e.number = n → e.number + 7 ≤ lastDay → m.holds? e = some true) :
    ∃ e : Date, d.number ≤ e.number ∧ e.number ≤ d.number + 52 * 7 ∧ e.weekday = d.weekday
      ∧ rule.holds? e = some true := by
  obtain ⟨e, rfl⟩ := Date.exists_number (d.one_le.trans h1) (by omega : n ≤ lastDay)
  exact ⟨e, h1, h2, Date.weekday_eq_iff.mpr hw,
    holds?_of_modifier_of_parity (hm e rfl hend) hp hrule hparity⟩

/-- The very last dates of the calendar are before a year without a February 29th. -/
theorem Date.le_lastDay_of_leap {d : Date} (hroom : d.number + 53 * 7 ≤ lastDay + 1)
    (hleap : isLeap (yearOf d.number + 1) = true) : d.number + 53 * 7 ≤ lastDay := by
  by_contra hlast
  have hyear : isLeap (yearOf (lastDay + 1 - 53 * 7) + 1) = false := by decide
  rw [show lastDay + 1 - 53 * 7 = d.number by omega, hleap] at hyear
  cases hyear

/-- On one of the dates a date and up to 52 weeks later, a rule is satisfied, if these dates and the ones
a week after them are in the calendar but for the very last. -/
theorem Rule.exists_within_year (rule : Rule) {d : Date} (hroom : d.number + 53 * 7 ≤ lastDay + 1) :
    ∃ e : Date, d.number ≤ e.number ∧ e.number ≤ d.number + 52 * 7 ∧ e.weekday = d.weekday
      ∧ rule.holds? e = some true := by
  obtain ⟨m, hm⟩ : ∃ m, rule.modifier = none ∨ rule.modifier = some m := by
    cases rule.modifier with
    | none => exact ⟨.first, .inl rfl⟩
    | some m => exact ⟨m, .inr rfl⟩
  obtain ⟨p, hp⟩ : ∃ p, rule.parity = none ∨ rule.parity = some p := by
    cases rule.parity with
    | none => exact ⟨.even, .inl rfl⟩
    | some p => exact ⟨p, .inr rfl⟩
  have hleap := d.le_lastDay_of_leap hroom
  have hy := one_le_yearOf d.number
  obtain ⟨hlow, hhigh⟩ := (yearOf_eq_iff hy d.one_le).mp rfl
  have hlen := daysBeforeYear_add_twelve_months hy
  generalize yearOf d.number = y at *
  have hsize (leap : Bool) : daysBeforeMonth leap 1 = 31 ∧ daysBeforeMonth leap 6 ≤ 182
      ∧ (leap = false → daysBeforeMonth leap 6 ≤ 181) ∧ daysBeforeMonth leap 11 ≤ 335
      ∧ daysBeforeMonth leap 12 = daysBeforeMonth leap 6 + 184 := by
    cases leap <;> decide
  have hthis := hsize (isLeap y)
  have hnext := hsize (isLeap (y + 1))
  -- February to June of this year, July to November, or February to June of the next year
  by_cases hspring : d.number ≤ daysBeforeYear y + 32
  · obtain ⟨n, h1, h2, hw, hpn, hmn⟩ := exists_occurrence hy m p d.weekday (.inl rfl)
    simp only [Nat.reduceAdd] at h2
    exact exists_of_day hm hp (by omega) (by omega) (by omega) hw hpn hmn
  · by_cases hautumn : d.number ≤ daysBeforeYear y + daysBeforeMonth (isLeap y) 6 + 1
    · obtain ⟨n, h1, h2, hw, hpn, hmn⟩ := exists_occurrence hy m p d.weekday (.inr rfl)
      simp only [Nat.reduceAdd] at h2
      exact exists_of_day hm hp (by omega) (by omega) (by omega) hw hpn hmn
    · obtain ⟨n, h1, h2, hw, hpn, hmn⟩ :=
        exists_occurrence (Nat.le_add_left 1 y) m p d.weekday (.inl rfl)
      simp only [Nat.reduceAdd] at h2
      have hend : n + 7 ≤ lastDay := by
        cases hnextLeap : isLeap (y + 1) with
        | true =>
            have := hleap hnextLeap
            omega
        | false =>
            have := hnext.2.2.1 hnextLeap
            omega
      exact exists_of_day hm hp (by omega) (by omega) hend hw hpn hmn

end Timetable
