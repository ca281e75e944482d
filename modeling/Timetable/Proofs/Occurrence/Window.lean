import Timetable.Occurrence.Candidates
import Timetable.Proofs.Calendar.Order

/-! # The seven dates after a cursor

A time of day stands next after a cursor on seven dates, one for each weekday: those from the cursor's
date to six days later, the cursor's own date being replaced by the one a week later if the time is
not after the cursor there (`Instant.datesAfter?_eq_some_iff`).  Of each weekday this is the first date
on which the time comes after the cursor (`Instant.exists_mem_datesAfter?`,
`Instant.le_of_mem_datesAfter?`). -/

namespace Timetable

theorem mapM_eq_some_iff {α β : Type} {f : α → Option β} :
    ∀ {xs : List α} {ys : List β}, xs.mapM f = some ys ↔ xs.map f = ys.map some
  | [], ys => by
      cases ys <;> simp
  | x :: xs, [] => by
      cases hx : f x <;> cases hxs : xs.mapM f <;> simp [hx, hxs]
  | x :: xs, y :: ys => by
      have ih : xs.mapM f = some ys ↔ xs.map f = ys.map some := mapM_eq_some_iff
      cases hx : f x with
      | none => simp [hx]
      | some z => cases hxs : xs.mapM f <;> simp [hx, hxs, ← ih]

theorem exists_mapM {α β : Type} {f : α → Option β} :
    ∀ {xs : List α}, (∀ x ∈ xs, ∃ y, f x = some y) → ∃ ys, xs.mapM f = some ys
  | [], _ => ⟨[], rfl⟩
  | x :: xs, h => by
      obtain ⟨y, hy⟩ := h x List.mem_cons_self
      obtain ⟨ys, hys⟩ := exists_mapM fun x' hx' => h x' (List.mem_cons_of_mem x hx')
      exact ⟨y :: ys, by simp [hy, hys]⟩

namespace Instant

variable {cursor : Instant} {time : TimeOfDay} {d f : Date} {ds : List Date}

theorem lt_on_iff : cursor < ⟨d, time, cursor.offset⟩ ↔ cursor.date.number < d.number
    ∨ cursor.date.number = d.number ∧ cursor.time.micros < time.micros :=
  lt_iff_of_offset_eq rfl

theorem on_le_iff : (⟨d, time, cursor.offset⟩ : Instant) ≤ cursor ↔ d.number < cursor.date.number
    ∨ d.number = cursor.date.number ∧ time.micros ≤ cursor.time.micros :=
  le_iff_of_offset_eq rfl

theorem on_le_on_iff {offset : Offset} :
    (⟨d, time, offset⟩ : Instant) ≤ ⟨f, time, offset⟩ ↔ d.number ≤ f.number :=
  le_iff_of_time_eq (i := ⟨d, time, offset⟩) (j := ⟨f, time, offset⟩) rfl rfl

/-- The number of days from the cursor's date to the date a number of days later, or to the one a week
after the cursor's date where the time is not after the cursor. -/
def daysAhead (cursor : Instant) (time : TimeOfDay) (days : Nat) : Nat :=
  if days = 0 ∧ time.micros ≤ cursor.time.micros then 7 else days

theorem datesAfter?_step {days : Nat} :
    (do let date ← cursor.date.addDays? days
        if (⟨date, time, cursor.offset⟩ : Instant) ≤ cursor then date.addDays? 7 else some date)
      = some d ↔ d.number = cursor.date.number + cursor.daysAhead time days := by
  have hlast := d.le_last
  cases hdate : cursor.date.addDays? days with
  | none =>
      have hend := Date.addDays?_eq_none_iff.mp hdate
      have := cursor.date.le_last
      simp only [Option.bind_eq_bind, Option.bind_none, reduceCtorEq, false_iff, daysAhead]
      split <;> omega
  | some date =>
      have hn := Date.addDays?_eq_some_iff.mp hdate
      have hle : ((⟨date, time, cursor.offset⟩ : Instant) ≤ cursor)
          ↔ days = 0 ∧ time.micros ≤ cursor.time.micros := by
        rw [on_le_iff]
        omega
      simp only [Option.bind_eq_bind, Option.bind_some, hle, daysAhead]
      split
      · rename_i hpast
        rw [Date.addDays?_eq_some_iff]
        omega
      · rw [Option.some.injEq, ← Date.number_inj, hn, eq_comm]

theorem datesAfter?_eq_some_iff : cursor.datesAfter? time = some ds ↔
    ds.map Date.number
      = (List.range 7).map fun days => cursor.date.number + cursor.daysAhead time days := by
  rw [datesAfter?, mapM_eq_some_iff]
  generalize List.range 7 = ks
  induction ks generalizing ds with
  | nil => cases ds <;> simp
  | cons k ks ih =>
      cases ds with
      | nil => simp
      | cons d ds =>
          rw [List.map_cons, List.map_cons, List.map_cons, List.map_cons, List.cons.injEq,
            List.cons.injEq, datesAfter?_step, ih]

theorem exists_datesAfter? (hroom : cursor.date.number + 7 ≤ lastDay) :
    ∃ ds, cursor.datesAfter? time = some ds := by
  apply exists_mapM
  intro days hdays
  have hlt := List.mem_range.mp hdays
  have hone := cursor.date.one_le
  obtain ⟨d, hd⟩ := Date.exists_number (n := cursor.date.number + cursor.daysAhead time days)
    (by omega) (by unfold daysAhead; split <;> omega)
  exact ⟨d, datesAfter?_step.mpr hd⟩

theorem mem_datesAfter?_iff (h : cursor.datesAfter? time = some ds) :
    d ∈ ds ↔ ∃ days < 7, d.number = cursor.date.number + cursor.daysAhead time days := by
  have hmap := datesAfter?_eq_some_iff.mp h
  have hmem : d.number ∈ ds.map Date.number ↔ d ∈ ds := by
    simp [Date.number_inj]
  rw [← hmem, hmap]
  simp [eq_comm]

theorem lt_of_mem_datesAfter? (h : cursor.datesAfter? time = some ds) (hd : d ∈ ds) :
    cursor < ⟨d, time, cursor.offset⟩ := by
  obtain ⟨days, hdays, hn⟩ := (mem_datesAfter?_iff h).mp hd
  rw [lt_on_iff]
  unfold daysAhead at hn
  split at hn <;> omega

theorem le_of_mem_datesAfter? (h : cursor.datesAfter? time = some ds) (hd : d ∈ ds)
    (hw : f.weekday = d.weekday) (hf : cursor < ⟨f, time, cursor.offset⟩) :
    d.number ≤ f.number := by
  obtain ⟨days, hdays, hn⟩ := (mem_datesAfter?_iff h).mp hd
  have hmod := Date.weekday_eq_weekday_iff.mp hw
  rw [lt_on_iff] at hf
  unfold daysAhead at hn
  split at hn <;> omega

theorem mem_datesAfter?_le (h : cursor.datesAfter? time = some ds) (hd : d ∈ ds) :
    d.number ≤ cursor.date.number + 7 := by
  obtain ⟨days, hdays, hn⟩ := (mem_datesAfter?_iff h).mp hd
  unfold daysAhead at hn
  split at hn <;> omega

/-- There is a date of each weekday among the seven. -/
theorem exists_mem_datesAfter? (h : cursor.datesAfter? time = some ds) (w : Weekday) :
    ∃ d ∈ ds, d.weekday = w := by
  have hw := w.index_lt
  have hone := cursor.date.one_le
  -- the distance from the cursor's weekday
  obtain ⟨days, hdays, hmod⟩ : ∃ days < 7, (cursor.date.number + days - 1) % 7 = w.index :=
    ⟨(w.index + 7 - (cursor.date.number - 1) % 7) % 7, by omega, by omega⟩
  have hlen : (ds.map Date.number).length = 7 := by
    rw [datesAfter?_eq_some_iff.mp h, List.length_map, List.length_range]
  have hmem : cursor.date.number + cursor.daysAhead time days ∈ ds.map Date.number := by
    rw [datesAfter?_eq_some_iff.mp h]
    exact List.mem_map.mpr ⟨days, List.mem_range.mpr hdays, rfl⟩
  obtain ⟨d, hd, hn⟩ := List.mem_map.mp hmem
  refine ⟨d, hd, Date.weekday_eq_iff.mpr ?_⟩
  unfold daysAhead at hn
  split at hn <;> omega

/-- No two of the seven dates are on the same weekday. -/
theorem pairwise_datesAfter? (h : cursor.datesAfter? time = some ds) :
    ds.Pairwise fun d f => d.weekday ≠ f.weekday := by
  have hnumbers : (ds.map Date.number).Pairwise fun m n => m % 7 ≠ n % 7 := by
    rw [datesAfter?_eq_some_iff.mp h, List.pairwise_map]
    refine List.pairwise_lt_range.imp_of_mem ?_
    intro i j hi hj hlt
    have hi := List.mem_range.mp hi
    have hj := List.mem_range.mp hj
    unfold daysAhead
    split <;> split <;> omega
  rw [List.pairwise_map] at hnumbers
  exact hnumbers.imp fun hne heq => hne (Date.weekday_eq_weekday_iff.mp heq)

end Instant

end Timetable
