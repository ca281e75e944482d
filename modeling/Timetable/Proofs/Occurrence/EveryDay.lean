import Timetable.Proofs.Occurrence.Coverage

/-! # Candidates on every day

Without weekdays, the candidates of a block are, for each of its times, the instants of one week: from
after the cursor to a week later, the last moment included (`Instant.WeekAhead`).  They come in the order
of the days from the cursor's date; only on this date itself the time may not be after the cursor, and then
it stands a week later (`Block.candidates?_everyDay`). -/

namespace Timetable

namespace Instant

/-- A time of day on the cursor's own date. -/
def today (cursor : Instant) (time : TimeOfDay) : Instant :=
  ⟨cursor.date, time, cursor.offset⟩

/-- The instants are those at one time of day that are after the cursor and at most seven days after it,
written at the cursor's offset.  They come in the order of the days from the cursor's date on, except that
the time on this date itself stands a week later if it is not after the cursor. -/
structure WeekAhead (cursor : Instant) (time : TimeOfDay) (ts : List Instant) : Prop where
  length_eq : ts.length = 7
  nodup : ts.Nodup
  mem_iff : ∀ t, t ∈ ts ↔ t.time = time ∧ t.offset = cursor.offset ∧ cursor < t
    ∧ t.position ≤ cursor.position + 7 * microsPerDay
  dates : ts.map (·.date.number) = (List.range 7).map fun days =>
    cursor.date.number + if days = 0 ∧ ¬ cursor < cursor.today time then 7 else days

variable {cursor t : Instant} {time : TimeOfDay} {ds : List Date}

theorem today_iff : cursor < cursor.today time ↔ cursor.time.micros < time.micros := by
  unfold today
  rw [lt_on_iff]
  omega

theorem daysAhead_eq (cursor : Instant) (time : TimeOfDay) (days : Nat) : cursor.daysAhead time days
    = if days = 0 ∧ ¬ cursor < cursor.today time then 7 else days := by
  unfold daysAhead
  simp only [today_iff, Nat.not_lt]

/-- The window of a week, by the dates that lie in it. -/
theorem mem_week_iff (ho : t.offset = cursor.offset) :
    cursor < t ∧ t.position ≤ cursor.position + 7 * microsPerDay ↔
      ∃ days < 7, t.date.number = cursor.date.number + cursor.daysAhead t.time days := by
  have htime := t.time.lt_day
  have hcursor := cursor.time.lt_day
  have hend : t.position ≤ cursor.position + 7 * microsPerDay ↔ t.date.number < cursor.date.number + 7
      ∨ t.date.number = cursor.date.number + 7 ∧ t.time.micros ≤ cursor.time.micros := by
    simp only [position, localPosition, ho]
    unfold microsPerDay at *
    omega
  rw [lt_iff_of_offset_eq ho.symm, hend]
  unfold daysAhead
  constructor
  · rintro ⟨hafter, hbefore⟩
    -- a date a week later is the one that replaces the cursor's date
    rcases hbefore with hlt | ⟨heq, hle⟩
    · refine ⟨t.date.number - cursor.date.number, by omega, ?_⟩
      rw [if_neg (by omega)]
      omega
    · refine ⟨0, by decide, ?_⟩
      rw [if_pos ⟨rfl, hle⟩, heq]
  · rintro ⟨days, hdays, hnumber⟩
    split at hnumber <;> omega

/-- The seven dates give the instants of the week after the cursor. -/
theorem weekAhead_of_datesAfter? (h : cursor.datesAfter? time = some ds) :
    cursor.WeekAhead time (ds.map fun d => ⟨d, time, cursor.offset⟩) where
  length_eq := by
    have hlength := congrArg List.length (datesAfter?_eq_some_iff.mp h)
    simpa using hlength
  nodup := by
    have hdates : ds.Nodup := (pairwise_datesAfter? h).imp fun hne heq => hne (congrArg Date.weekday heq)
    exact hdates.map fun d f heq => (Instant.mk.inj heq).1
  mem_iff t := by
    simp only [List.mem_map, mem_datesAfter?_iff h]
    constructor
    · rintro ⟨d, hd, rfl⟩
      have ho : (⟨d, time, cursor.offset⟩ : Instant).offset = cursor.offset := rfl
      exact ⟨rfl, rfl, (mem_week_iff ho).mpr hd⟩
    · rintro ⟨rfl, ho, hweek⟩
      refine ⟨t.date, (mem_week_iff ho).mp hweek, ?_⟩
      rw [← ho]
  dates := by
    rw [List.map_map]
    simp only [← daysAhead_eq]
    exact datesAfter?_eq_some_iff.mp h

end Instant

namespace Block

/-- A block that names no weekdays has, for each of its times, the instants of the week after the cursor as
its candidates. -/
theorem candidates?_everyDay {b : Block} {cursor : Instant} {cs : List Instant} (hdays : b.days = none)
    (h : b.candidates? cursor = some cs) :
    ∃ week : TimeOfDay → List Instant, cs = b.times.flatMap week
      ∧ ∀ time ∈ b.times, cursor.WeekAhead time (week time) := by
  obtain ⟨hall, hcs⟩ := candidates?_eq_some_iff.mp h
  refine ⟨_, hcs, fun time htime => ?_⟩
  obtain ⟨ds, hds⟩ := hall time htime
  rw [datesFor, hds, Option.getD_some]
  rw [candidateDates?_of_none hdays] at hds
  exact Instant.weekAhead_of_datesAfter? hds

/-- On the 9th of June 2021 at one: the candidate for one o'clock on this day is a week later, the one for
six is not. -/
theorem candidates?_everyDay_oneAndSix :
    let block : Block := ⟨[.onTheHour 13, .onTheHour 18], none, none, by decide, by decide⟩
    let cursor : Instant := ⟨⟨737950, by decide, by decide⟩, .onTheHour 13, .utc⟩
    ∃ cs, block.candidates? cursor = some cs
      ∧ cs.map (·.date.number) = [737957, 737951, 737952, 737953, 737954, 737955, 737956,
        737950, 737951, 737952, 737953, 737954, 737955, 737956]
      ∧ ∃ week : TimeOfDay → List Instant, cs = block.times.flatMap week
        ∧ ∀ time ∈ block.times, cursor.WeekAhead time (week time) := by
  intro block cursor
  have hfound : (block.candidates? cursor).map (·.map (·.date.number))
      = some [737957, 737951, 737952, 737953, 737954, 737955, 737956,
        737950, 737951, 737952, 737953, 737954, 737955, 737956] := by decide +kernel
  obtain ⟨cs, hcs, hdates⟩ := Option.map_eq_some_iff.mp hfound
  exact ⟨cs, hcs, hdates, candidates?_everyDay rfl hcs⟩

end Block

end Timetable
