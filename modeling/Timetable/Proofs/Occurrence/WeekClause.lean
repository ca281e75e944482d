import Timetable.Proofs.Occurrence.Stepping

/-! # Weeks of one parity

The parity of a block's weeks takes effect through its entries: the candidates of a block with entries
are in such weeks (`Block.parity_of_mem_candidates?`), and so is what its iterators find.  A block without
entries is not held to it.  After the last moment of a Sunday, all its candidates are in the week that
begins then, whatever the parity (`Block.exists_cursor_of_other_parity`).  So the weeks of a block are
honoured exactly when it names weekdays (`Block.weeks_honoured_iff`). -/

namespace Timetable

theorem Entry.Meets.parity_holds {e : Entry} {d : Date} {p : Parity} (h : e.Meets (some p) d) :
    p.holds d.week = true := by
  obtain ⟨answer, -, hanswer⟩ := Option.map_eq_some_iff.mp h.2
  exact (Bool.and_eq_true_iff.mp hanswer).2

namespace Block

variable {b : Block} {p : Parity} {cursor t : Instant} {cs : List Instant}

theorem parity_of_mem_candidates? (hweeks : b.weeks = some p) (hdays : b.days ≠ none)
    (h : b.candidates? cursor = some cs) (ht : t ∈ cs) : p.holds t.date.week = true := by
  obtain ⟨-, -, -, hmeets⟩ := covers_of_mem_candidates? h ht
  obtain ⟨es, hes⟩ := Option.ne_none_iff_exists'.mp hdays
  obtain ⟨e, -, he⟩ := hmeets es hes
  rw [hweeks] at he
  exact he.parity_holds

/-! ### The last moment of a Sunday -/

/-- A date in the week after which the next one has not the parity. -/
def lastSunday (p : Parity) : Date :=
  match p with
  | .odd => ⟨737954, by decide, by decide⟩
  | .even => ⟨737961, by decide, by decide⟩

/-- The last microsecond of that date. -/
def lastMoment (p : Parity) : Instant :=
  ⟨lastSunday p, ⟨microsPerDay - 1, by decide⟩, .utc⟩

theorem other_parity_of_next_week {d : Date} (hlow : (lastSunday p).number + 1 ≤ d.number)
    (hhigh : d.number ≤ (lastSunday p).number + 7) : p.holds d.week = false := by
  obtain ⟨i, hi, hd⟩ : ∃ i < 7, d.number = (lastSunday p).number + 1 + i :=
    ⟨d.number - ((lastSunday p).number + 1), by omega, by omega⟩
  have hweek : ∀ i < 7, p.holds (Gregorian.weekOf ((lastSunday p).number + 1 + i)) = false := by
    cases p <;> decide
  rw [Date.week, hd]
  exact hweek i hi

/-- After the last moment of a Sunday, every time of day comes next within the week that follows. -/
theorem next_week_of_mem_datesAfter? {time : TimeOfDay} {ds : List Date} {d : Date}
    (h : (lastMoment p).datesAfter? time = some ds) (hd : d ∈ ds) :
    (lastSunday p).number + 1 ≤ d.number ∧ d.number ≤ (lastSunday p).number + 7 := by
  obtain ⟨days, hdays, hn⟩ := (Instant.mem_datesAfter?_iff h).mp hd
  have htime := time.lt_day
  unfold Instant.daysAhead lastMoment at hn
  simp only at hn
  split at hn <;> omega

theorem other_parity_of_mem_candidates? (hdays : b.days = none)
    (h : b.candidates? (lastMoment p) = some cs) (ht : t ∈ cs) : p.holds t.date.week = false := by
  obtain ⟨-, -, dates, hdates, hdate⟩ := (mem_candidates?_iff h).mp ht
  rw [candidateDates?_of_none hdays] at hdates
  obtain ⟨hlow, hhigh⟩ := next_week_of_mem_datesAfter? hdates hdate
  exact other_parity_of_next_week hlow hhigh

/-- A block without entries has candidates in weeks of the other parity. -/
theorem exists_cursor_of_other_parity (hdays : b.days = none) (p : Parity) :
    ∃ cursor t cs, b.candidates? cursor = some cs ∧ (Plan.single b).nextAfter? cursor = some t
      ∧ t ∈ cs ∧ p.holds t.date.week = false := by
  have hdates (time : TimeOfDay) : ∃ dates, b.candidateDates? (lastMoment p) time = some dates := by
    rw [candidateDates?_of_none hdays]
    apply Instant.exists_datesAfter?
    cases p <;> decide
  have hcs := candidates?_eq_some_iff.mpr ⟨fun time _ => hdates time, rfl⟩
  obtain ⟨t, ht⟩ := exists_earliest? (candidates?_ne_nil hcs)
  have hmem := mem_of_earliest? ht
  refine ⟨lastMoment p, t, _, hcs, ?_, hmem, other_parity_of_mem_candidates? hdays hcs hmem⟩
  rw [Plan.nextAfter?, Plan.candidates?_single, hcs]
  exact ht

/-! ### The weeks of a block -/

/-- The candidates of a block whose weeks have a parity are all in such weeks, and the iterators over it
find only instants in such weeks, exactly when the block names weekdays. -/
theorem weeks_honoured_iff (hweeks : b.weeks = some p) :
    ((∀ cursor cs, b.candidates? cursor = some cs → ∀ t ∈ cs, p.holds t.date.week = true)
      ↔ b.days ≠ none)
    ∧ ∀ scene : Scene,
      ((∀ (it : Iterator) (t : Instant), (∀ c ∈ it.plan.blocks, c = b) →
          (it.next.run scene).1.1 = .ok t → p.holds t.date.week = true)
        ↔ b.days ≠ none) := by
  constructor
  · constructor
    · intro hall hdays
      obtain ⟨cursor, t, cs, hcs, -, ht, hother⟩ := exists_cursor_of_other_parity hdays p
      rw [hall cursor cs hcs t ht] at hother
      cases hother
    · exact fun hdays cursor cs hcs t ht => parity_of_mem_candidates? hweeks hdays hcs ht
  · intro scene
    constructor
    · intro hall hdays
      obtain ⟨cursor, t, cs, -, hnext, -, hother⟩ := exists_cursor_of_other_parity hdays p
      let it : Iterator := ⟨.single b, cursor, false, none, false⟩
      obtain ⟨scene', hstep⟩ : ∃ scene', it.next.run scene = ((.ok t, it.movedTo t), scene') :=
        Iterator.next_run_of_nextAfter? rfl rfl hnext scene
      rw [hall it t (fun c hc => List.mem_singleton.mp hc) (by rw [hstep])] at hother
      cases hother
    · intro hdays it t hblocks ht
      obtain ⟨cursor, hnext⟩ := Iterator.exists_nextAfter?_of_next ht
      obtain ⟨c, hc, cs, hcs, hmem⟩ := Plan.mem_of_nextAfter? hnext
      rw [hblocks c hc] at hcs
      exact parity_of_mem_candidates? hweeks hdays hcs hmem

/-- At 6 AM in odd weeks. -/
def sixInOddWeeks : Block :=
  ⟨[.ofTwelveHour 6 0 .am (by decide)], none, some .odd, by decide, by decide⟩

theorem not_honoured_sixInOddWeeks : ¬ ∀ cursor cs, sixInOddWeeks.candidates? cursor = some cs →
    ∀ t ∈ cs, Parity.odd.holds t.date.week = true := by
  intro hall
  exact (weeks_honoured_iff rfl).1.mp hall rfl

/-- On Sunday, the 13th of June 2021, all candidates are in week 24. -/
theorem candidates?_sixInOddWeeks :
    ∃ cs, sixInOddWeeks.candidates? ⟨⟨737954, by decide, by decide⟩, .onTheHour 13, .utc⟩ = some cs
      ∧ cs.map (·.date.number) = [737961, 737955, 737956, 737957, 737958, 737959, 737960]
      ∧ ∀ t ∈ cs, t.date.week = 24 ∧ Parity.odd.holds t.date.week = false := by
  refine ⟨_, by cbv, by decide, by decide⟩

end Block

end Timetable
