import Mathlib.Tactic
import Timetable.Calendar.Instant

/-! # Dates and instants in order

Dates of one weekday are whole weeks apart (`Date.weekday_eq_weekday_iff`), so they can be counted
(`Date.ncard_weekday_after`).  Instants are preordered by their place on the time line of UTC; instants
written at one offset are ordered as their dates and times of day are (`Instant.lt_iff_of_offset_eq`), and
of these no two different ones are at the same place (`Instant.eq_of_le_of_le`).  At another offset an
instant keeps its place (`Instant.inOffset?_eq_some_iff`). -/

namespace Timetable

theorem Date.weekday_eq_weekday_iff {d e : Date} :
    d.weekday = e.weekday ↔ d.number % 7 = e.number % 7 := by
  have hd := d.one_le
  have he := e.one_le
  have he' := weekday_eq_iff.mp (rfl : e.weekday = e.weekday)
  rw [weekday_eq_iff, ← he']
  omega

/-- The date with a number that is in the calendar. -/
theorem Date.exists_number {n : Nat} (h1 : 1 ≤ n) (h2 : n ≤ lastDay) : ∃ d : Date, d.number = n :=
  ⟨⟨n, h1, h2⟩, rfl⟩

theorem Date.exists_addDays? {d : Date} {days : Nat} (h : d.number + days ≤ lastDay) :
    ∃ e, d.addDays? days = some e := by
  obtain ⟨e, he⟩ := exists_number (Nat.le_add_right_of_le d.one_le) h
  exact ⟨e, addDays?_eq_some_iff.mpr he⟩

/-- After a given day, every seven days there is one more date of each weekday. -/
theorem Date.ncard_weekday_after {d : Date} {day : Nat} (h : day < d.number) :
    {e : Date | day < e.number ∧ e.number ≤ d.number ∧ e.weekday = d.weekday}.ncard
      = (d.number - day + 6) / 7 := by
  refine Set.ncard_eq_of_bijective
    (fun i hi => ⟨d.number - 7 * i, by omega, (Nat.sub_le _ _).trans d.le_last⟩) ?_ ?_ ?_
  · rintro e ⟨hlow, hle, hw⟩
    have hmod := weekday_eq_weekday_iff.mp hw
    refine ⟨(d.number - e.number) / 7, by omega, ?_⟩
    rw [← number_inj]
    simp only
    omega
  · intro i hi
    refine ⟨?_, Nat.sub_le _ _, weekday_eq_weekday_iff.mpr ?_⟩
    · simp only
      omega
    · simp only
      omega
  · intro i j hi hj heq
    have := number_inj.mpr heq
    simp only at this
    omega

namespace Instant

instance : Preorder Instant where
  le_refl i := le_refl i.position
  le_trans _ _ _ hij hjk := Int.le_trans hij hjk
  lt_iff_le_not_ge i j := lt_iff_le_not_ge (a := i.position) (b := j.position)

theorem not_lt_iff {i j : Instant} : ¬ i < j ↔ j ≤ i :=
  Int.not_lt

theorem le_or_lt (i j : Instant) : i ≤ j ∨ j < i :=
  le_or_gt i.position j.position

theorem lt_iff_of_offset_eq {i j : Instant} (h : i.offset = j.offset) :
    i < j ↔ i.date.number < j.date.number
      ∨ i.date.number = j.date.number ∧ i.time.micros < j.time.micros := by
  have hi := i.time.lt_day
  have hj := j.time.lt_day
  rw [lt_iff, position, position, localPosition, localPosition, h]
  unfold microsPerDay at *
  omega

theorem le_iff_of_offset_eq {i j : Instant} (h : i.offset = j.offset) :
    i ≤ j ↔ i.date.number < j.date.number
      ∨ i.date.number = j.date.number ∧ i.time.micros ≤ j.time.micros := by
  rw [← not_lt_iff, lt_iff_of_offset_eq h.symm]
  omega

theorem le_iff_of_time_eq {i j : Instant} (ho : i.offset = j.offset) (ht : i.time = j.time) :
    i ≤ j ↔ i.date.number ≤ j.date.number := by
  rw [le_iff_of_offset_eq ho, ht]
  omega

theorem eq_of_le_of_le {i j : Instant} (h : i.offset = j.offset) (hij : i ≤ j) (hji : j ≤ i) :
    i = j := by
  rw [le_iff_of_offset_eq h] at hij
  rw [le_iff_of_offset_eq h.symm] at hji
  obtain ⟨di, ti, oi⟩ := i
  obtain ⟨dj, tj, oj⟩ := j
  obtain rfl : di = dj := Date.number_inj.mp (by simp only at hij hji; omega)
  obtain rfl : ti = tj := by
    cases ti
    cases tj
    simp only [TimeOfDay.mk.injEq] at hij hji ⊢
    omega
  rw [show oi = oj from h]

/-! ### At another offset -/

variable {s t : Instant} {offset : Offset}

theorem position_add_offset (t : Instant) :
    t.position + t.offset.micros = t.date.number * microsPerDay + t.time.micros := by
  rw [position, localPosition]
  push_cast
  omega

theorem ofLocalPosition?_eq_some_iff {position : Int} :
    ofLocalPosition? position offset = some t ↔
      t.offset = offset ∧ t.position + offset.micros = position := by
  have ht := t.time.lt_day
  constructor
  · intro h
    unfold ofLocalPosition? at h
    split at h
    · obtain ⟨date, hdate, rfl⟩ := Option.map_eq_some_iff.mp h
      refine ⟨rfl, (position_add_offset _).trans ?_⟩
      unfold Date.ofNumber? at hdate
      split at hdate
      · obtain rfl := Option.some.inj hdate
        have := Nat.div_add_mod' position.toNat microsPerDay
        simp only
        omega
      · cases hdate
    · cases h
  · rintro ⟨rfl, rfl⟩
    rw [position_add_offset, ← Int.natCast_mul, ← Int.natCast_add]
    have hdiv : (t.date.number * microsPerDay + t.time.micros) / microsPerDay = t.date.number := by
      rw [Nat.mul_comm, Nat.mul_add_div (by decide), Nat.div_eq_of_lt ht, Nat.add_zero]
    have hmod : (t.date.number * microsPerDay + t.time.micros) % microsPerDay = t.time.micros := by
      rw [Nat.mul_comm, Nat.mul_add_mod, Nat.mod_eq_of_lt ht]
    simp only [ofLocalPosition?, Int.natCast_nonneg, if_true, Int.toNat_natCast, hdiv, hmod,
      Date.ofNumber?, t.date.one_le, t.date.le_last, and_self, dif_pos, Option.map_some]

theorem exists_ofLocalPosition? {position : Int} (h1 : (microsPerDay : Int) ≤ position)
    (h2 : position < (lastDay + 1) * microsPerDay) :
    ∃ t, ofLocalPosition? position offset = some t := by
  have h : 1 ≤ position.toNat / microsPerDay ∧ position.toNat / microsPerDay ≤ lastDay := by
    constructor
    · rw [Nat.one_le_div_iff (by decide)]
      omega
    · rw [← Nat.lt_succ_iff, Nat.div_lt_iff_lt_mul (by decide)]
      unfold lastDay microsPerDay at *
      omega
  rw [ofLocalPosition?, if_pos (by omega), Date.ofNumber?, dif_pos h]
  exact ⟨_, rfl⟩

/-- Written at another offset, an instant is the same moment. -/
theorem inOffset?_eq_some_iff : s.inOffset? offset = some t ↔
    inCalendar s.position = true ∧ t.offset = offset ∧ t.position = s.position := by
  unfold inOffset?
  split
  · rename_i hin
    rw [ofLocalPosition?_eq_some_iff]
    simp only [hin, true_and]
    exact and_congr_right fun _ => by omega
  · rename_i hin
    simp [hin]

/-- Two days from both ends of the calendar, an instant can be written at any offset. -/
theorem exists_inOffset?_of_number (hfirst : 3 ≤ s.date.number) (hlast : s.date.number + 2 ≤ lastDay)
    (offset : Offset) : ∃ t, s.inOffset? offset = some t := by
  have hposition := position_add_offset s
  have htime := s.time.lt_day
  have hlow := s.offset.gt_day
  have hhigh := s.offset.lt_day
  have hlow' := offset.gt_day
  have hhigh' := offset.lt_day
  have hin : inCalendar s.position = true := by
    rw [inCalendar, Bool.and_eq_true, decide_eq_true_iff, decide_eq_true_iff]
    unfold microsPerDay at *
    omega
  rw [inOffset?, if_pos hin]
  apply exists_ofLocalPosition?
  · unfold microsPerDay at *
    omega
  · unfold microsPerDay at *
    omega

end Instant

end Timetable
