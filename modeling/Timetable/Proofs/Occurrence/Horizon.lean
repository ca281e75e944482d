import Timetable.Proofs.Occurrence.Stream

/-! # How far the search goes

From a date on, the search for one that satisfies a rule goes on by a week at a time (`Rule.Search`), at
most 52 times (`Rule.exists_search_within_year`).  The seven dates from which it begins are at most a week
after the cursor.  So a block whose entries name different weekdays has candidates after every cursor that
is 54 weeks from the end of the calendar, and none of them is more than 53 weeks after the cursor
(`Block.candidates?_within_horizon`). -/

namespace Timetable

namespace Rule

/-- The search from one date to another goes on by a week the given number of times. -/
inductive Search (rule : Rule) : Nat → Date → Date → Prop where
  | found {d : Date} (h : rule.holds? d = some true) : Search rule 0 d d
  | next {d next e : Date} {weeks : Nat} (h : rule.holds? d = some false)
      (hnext : d.addDays? 7 = some next) (rest : Search rule weeks next e) :
      Search rule (weeks + 1) d e

variable {rule : Rule} {weeks : Nat} {d e : Date}

theorem Search.number_eq (h : rule.Search weeks d e) : e.number = d.number + 7 * weeks := by
  induction h with
  | found h => rfl
  | next h hnext rest ih =>
      rw [ih, Date.addDays?_eq_some_iff.mp hnext]
      omega

theorem exists_search_of_firstFrom? (h : rule.firstFrom? d = some e) :
    ∃ weeks, rule.Search weeks d e := by
  fun_induction Rule.firstFrom? rule d with
  | case1 d hnone => cases h
  | case2 d htrue =>
      obtain rfl : d = e := Option.some.inj h
      exact ⟨0, .found htrue⟩
  | case3 d hfalse hend => cases h
  | case4 d hfalse next hnext ih =>
      obtain ⟨weeks, hrest⟩ := ih h
      exact ⟨weeks + 1, .next hfalse hnext hrest⟩

theorem Search.holds (h : rule.Search weeks d e) : rule.holds? e = some true := by
  induction h with
  | found h => exact h
  | next _ _ _ ih => exact ih

theorem Search.eq_of_holds (h : rule.Search weeks d e) (hd : rule.holds? d = some true) :
    weeks = 0 ∧ e = d := by
  cases h with
  | found _ => exact ⟨rfl, rfl⟩
  | next hfalse _ _ =>
      rw [hd] at hfalse
      cases hfalse

theorem Search.exists_next (h : rule.Search weeks d e) (hd : rule.holds? d = some false) :
    ∃ next rest, d.addDays? 7 = some next ∧ rule.Search rest next e ∧ weeks = rest + 1 := by
  cases h with
  | found htrue =>
      rw [hd] at htrue
      cases htrue
  | next _ hnext rest => exact ⟨_, _, hnext, rest, rfl⟩

/-- If the dates of the year that follows are in the calendar, the search ends on one of them. -/
theorem exists_search_within_year (rule : Rule) (hroom : d.number + 53 * 7 ≤ lastDay + 1) :
    ∃ weeks ≤ 52, ∃ e, rule.firstFrom? d = some e ∧ rule.Search weeks d e := by
  obtain ⟨f, hle, hnear, hw, hholds⟩ := rule.exists_within_year hroom
  obtain ⟨e, he⟩ := exists_firstFrom? hle hw hholds
  obtain ⟨weeks, hsearch⟩ := exists_search_of_firstFrom? he
  have hleast := (firstFrom?_eq_some_iff.mp he).least f hle hw hholds
  have hnumber := hsearch.number_eq
  exact ⟨weeks, by omega, e, he, hsearch⟩

end Rule

/-! ### Candidates -/

/-- The seven dates give instants at most a week after the cursor. -/
theorem Instant.position_le_of_mem_datesAfter? {cursor : Instant} {time : TimeOfDay} {d : Date}
    {ds : List Date} (h : cursor.datesAfter? time = some ds) (hd : d ∈ ds) :
    (⟨d, time, cursor.offset⟩ : Instant).position ≤ cursor.position + 7 * microsPerDay := by
  obtain ⟨days, hdays, hn⟩ := (mem_datesAfter?_iff h).mp hd
  have htime := time.lt_day
  simp only [position, localPosition, hn]
  unfold daysAhead
  unfold microsPerDay at *
  split <;> omega

/-- Entries for different weekdays move a date each to the first date that satisfies it. -/
theorem Date.isFirstFrom_of_mem_settle? {parity : Option Parity} {es : List Entry} {d x : Date}
    {found : List Date} (hdistinct : es.Pairwise fun e f => e.weekday ≠ f.weekday)
    (h : settle? parity es d = some found) (hx : x ∈ found) :
    ∃ e ∈ es, (e.rule parity).IsFirstFrom d x := by
  induction es with
  | nil =>
      obtain rfl : [] = found := Option.some.inj h
      cases hx
  | cons e es ih =>
      obtain ⟨he, hes⟩ := List.pairwise_cons.mp hdistinct
      by_cases hw : e.weekday = d.weekday
      · obtain ⟨y, ys, hy, hys, rfl⟩ := (settle?_cons_eq_some_iff hw).mp h
        have hnone : settle? parity es y = some [] :=
          settle?_of_forall_ne fun f hf heq => he f hf (hw.trans (hy.weekday_eq.symm.trans heq.symm))
        obtain rfl : ys = [] := Option.some.inj (hys.symm.trans hnone)
        obtain rfl := List.mem_singleton.mp hx
        exact ⟨e, List.mem_cons_self, hy⟩
      · rw [settle?_cons_of_ne hw] at h
        obtain ⟨f, hf, hfirst⟩ := ih hes h
        exact ⟨f, List.mem_cons_of_mem e hf, hfirst⟩

namespace Block

variable {b : Block} {cursor t : Instant} {cs : List Instant}

theorem exists_candidates?_of_distinct
    (hdistinct : ∀ es, b.days = some es → es.Pairwise fun e f => e.weekday ≠ f.weekday)
    (hroom : cursor.date.number + 54 * 7 ≤ lastDay + 1) : ∃ cs, b.candidates? cursor = some cs := by
  refine ⟨_, candidates?_eq_some_iff.mpr ⟨fun time _ => ?_, rfl⟩⟩
  cases hdays : b.days with
  | none =>
      rw [candidateDates?_of_none hdays]
      exact Instant.exists_datesAfter? (by omega)
  | some es =>
      have hsep : b.Separate := by
        rw [Separate, hdays]
        exact hdistinct es hdays
      exact exists_candidateDates? hsep hroom time

theorem position_le_of_mem_candidates?
    (hdistinct : ∀ es, b.days = some es → es.Pairwise fun e f => e.weekday ≠ f.weekday)
    (hroom : cursor.date.number + 54 * 7 ≤ lastDay + 1) (h : b.candidates? cursor = some cs)
    (ht : t ∈ cs) : t.position ≤ cursor.position + 53 * 7 * microsPerDay := by
  obtain ⟨ho, -, dates, hdates, hdate⟩ := (mem_candidates?_iff h).mp ht
  -- it is enough that the search has not gone on for more than a year
  suffices hfound : ∃ d ds, cursor.datesAfter? t.time = some ds ∧ d ∈ ds
      ∧ t.date.number ≤ d.number + 52 * 7 by
    obtain ⟨d, ds, hds, hd, hle⟩ := hfound
    have hnear := Instant.position_le_of_mem_datesAfter? hds hd
    have hweeks := Nat.mul_le_mul_right microsPerDay hle
    rw [Nat.add_mul] at hweeks
    simp only [Instant.position, Instant.localPosition, ho] at hnear ⊢
    generalize microsPerDay = day at *
    omega
  cases hdays : b.days with
  | none =>
      rw [candidateDates?_of_none hdays] at hdates
      exact ⟨t.date, dates, hdates, hdate, Nat.le_add_right _ _⟩
  | some es =>
      obtain ⟨ds, hds, hall, rfl⟩ := (candidateDates?_eq_some_iff hdays).mp hdates
      obtain ⟨d, hd, hdate⟩ := List.mem_flatMap.mp hdate
      obtain ⟨found, hfound⟩ := hall d hd
      rw [hfound, Option.getD_some] at hdate
      obtain ⟨e, -, hfirst⟩ := Date.isFirstFrom_of_mem_settle? (hdistinct es hdays) hfound hdate
      have hweek := Instant.mem_datesAfter?_le hds hd
      obtain ⟨f, hle, hnear, hw, hholds⟩ := (e.rule b.weeks).exists_within_year (d := d) (by omega)
      exact ⟨d, ds, hds, hd, (hfirst.least f hle hw hholds).trans hnear⟩

/-- From a date that is 54 weeks from the end of the calendar, the search for one that satisfies a rule
goes on by a week at most 52 times, and ends on such a date.  A block whose entries name different weekdays
has candidates after every cursor that is 54 weeks from the end of the calendar, and each of them is at most
53 weeks after the cursor. -/
theorem candidates?_within_horizon :
    (∀ (rule : Rule) (d : Date), d.number + 54 * 7 ≤ lastDay + 1 →
      ∃ weeks ≤ 52, ∃ e, d.addDays? (7 * weeks) = some e ∧ rule.holds? e = some true
        ∧ rule.firstFrom? d = some e ∧ rule.Search weeks d e)
    ∧ ∀ (b : Block) (cursor : Instant), cursor.LeavesRoom cursor.offset →
        (∀ es, b.days = some es → es.Pairwise fun e f => e.weekday ≠ f.weekday) →
        ∃ cs, b.candidates? cursor = some cs
          ∧ ∀ t ∈ cs, t.position ≤ cursor.position + 53 * 7 * microsPerDay := by
  constructor
  · intro rule d hroom
    obtain ⟨weeks, hweeks, e, hfirst, hsearch⟩ := rule.exists_search_within_year (d := d) (by omega)
    exact ⟨weeks, hweeks, e, Date.addDays?_eq_some_iff.mpr hsearch.number_eq, hsearch.holds, hfirst,
      hsearch⟩
  · intro b cursor hroom hdistinct
    obtain ⟨cs, hcs⟩ := exists_candidates?_of_distinct hdistinct hroom.number_le
    exact ⟨cs, hcs, fun t ht => position_le_of_mem_candidates? hdistinct hroom.number_le hcs ht⟩

/-- On Saturday, the 10th of October 1372, the next first Saturday of a month in an even week is 34 weeks
away; and at midnight 54 weeks before the end of the calendar there is just room enough. -/
theorem candidates?_within_horizon_firstAndLast :
    let rule : Rule := ⟨some .first, some .even⟩
    let d : Date := ⟨501031, by decide, by decide⟩
    let block : Block := ⟨[.onTheHour 12], some [⟨.monday, some .first⟩, ⟨.friday, some .last⟩],
      some .even, by decide, by decide⟩
    let cursor : Instant := ⟨⟨3651682, by decide, by decide⟩, .onTheHour 0, .utc⟩
    (rule.firstFrom? d).map (·.number) = some (501031 + 7 * 34)
      ∧ (∃ weeks ≤ 52, ∃ e, d.addDays? (7 * weeks) = some e ∧ rule.holds? e = some true
        ∧ rule.firstFrom? d = some e ∧ rule.Search weeks d e)
      ∧ cursor.LeavesRoom cursor.offset
      ∧ (∀ es, block.days = some es → es.Pairwise fun e f => e.weekday ≠ f.weekday)
      ∧ ∃ cs, block.candidates? cursor = some cs
        ∧ ∀ t ∈ cs, t.position ≤ cursor.position + 53 * 7 * microsPerDay := by
  intro rule d block cursor
  have hroom : cursor.LeavesRoom cursor.offset := by decide
  have hdistinct : ∀ es, block.days = some es → es.Pairwise fun e f => e.weekday ≠ f.weekday := by
    rintro es ⟨⟩
    decide
  exact ⟨by decide +kernel, candidates?_within_horizon.1 rule d (by decide), hroom, hdistinct,
    candidates?_within_horizon.2 block cursor hroom hdistinct⟩

end Block

end Timetable
