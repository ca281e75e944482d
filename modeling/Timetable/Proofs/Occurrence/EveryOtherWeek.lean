import Timetable.Proofs.Calendar.IsoWeeks
import Timetable.Proofs.Occurrence.Advancing
import Timetable.Proofs.Occurrence.OneEntry

/-! # Every other week

The weekdays in weeks of one parity come every other week, except where a year with 53 weeks ends: its last
week and the first one after it are both odd.  So the gap between two of them is two weeks, or across the
end of such a year one week from odd to odd, and three from even to even (`Parity.gap_of_search`).  An
iterator that does not skip what is past goes on in these gaps, and as long as it does not come to the year
9999, it does not fail (`Iterator.take_run_everyOtherWeek`). -/

namespace Timetable

/-- Between the two dates a year with 53 weeks ends. -/
def Date.AcrossLongYear (d e : Date) : Prop :=
  ∃ f : Date, f.week = 53 ∧ d.weekYear ≤ f.weekYear ∧ f.weekYear < e.weekYear

/-- The number of days from a date in a week of the parity to the next one on its weekday. -/
inductive Parity.Gap (p : Parity) (d e : Date) : Nat → Prop where
  | twoWeeks (hshort : ¬ d.AcrossLongYear e) : Gap p d e 14
  | oneWeek (hodd : p = .odd) (hlong : d.AcrossLongYear e) (hd : d.week = 53) (he : e.week = 1) :
      Gap p d e 7
  | threeWeeks (heven : p = .even) (hlong : d.AcrossLongYear e) (hd : d.week = 52) (he : e.week = 2) :
      Gap p d e 21

/-- From the one instant to the other it is exactly the gap between their dates. -/
def Parity.Spaced (p : Parity) (t u : Instant) : Prop :=
  ∃ days, p.Gap t.date u.date days ∧ u.position = t.position + days * microsPerDay

/-- The instant is at the time of day and the offset, on the weekday and in a week of the parity. -/
structure Parity.Occurs (p : Parity) (w : Weekday) (time : TimeOfDay) (offset : Offset) (t : Instant) :
    Prop extends t.IsOn w time offset where
  holds : p.holds t.date.week = true

/-! ### Gaps between dates -/

namespace Date

variable {d e : Date}

theorem not_acrossLongYear_of_eq (h : e.weekYear = d.weekYear) : ¬ d.AcrossLongYear e := by
  rintro ⟨f, -, hlow, hhigh⟩
  omega

/-- The end of a year the last week of which is not the 53rd. -/
theorem not_acrossLongYear_of_last (h : e.weekYear = d.weekYear + 1) {last : Nat}
    (hlast : ∀ f : Date, f.weekYear = d.weekYear → f.week ≤ last) (hshort : last < 53) :
    ¬ d.AcrossLongYear e := by
  rintro ⟨f, hf, hlow, hhigh⟩
  have := hlast f (by omega)
  omega

end Date

namespace Parity

variable {p : Parity} {d next e : Date} {weeks : Nat}

/-- After a week of the parity comes one of the other parity, or the first week of a year, after an odd week
53 or an even week 52. -/
theorem next_week (hd : p.holds d.week = true) (hnext : d.addDays? 7 = some next) :
    next.weekYear = d.weekYear ∧ next.week = d.week + 1 ∧ p.holds next.week = false
      ∨ next.weekYear = d.weekYear + 1 ∧ next.week = 1
        ∧ (∀ f : Date, f.weekYear = d.weekYear → f.week ≤ d.week)
        ∧ (p = .odd ∧ d.week = 53 ∨ p = .even ∧ d.week = 52) := by
  have hle := d.week_le
  rcases Date.week_later (Date.addDays?_eq_some_iff.mp hnext) with
    ⟨hyear, hweek⟩ | ⟨hyear, hweek, hlast, hmax⟩
  · refine .inl ⟨hyear, hweek, ?_⟩
    rw [hweek]
    cases p <;> simp only [holds, beq_iff_eq, beq_eq_false_iff_ne] at hd ⊢ <;> omega
  · refine .inr ⟨hyear, hweek, hmax, ?_⟩
    cases p <;> simp only [holds, beq_iff_eq] at hd
    · exact .inr ⟨rfl, by omega⟩
    · exact .inl ⟨rfl, by omega⟩

theorem second_week (hd : d.week = 1) (hnext : d.addDays? 7 = some next) :
    next.weekYear = d.weekYear ∧ next.week = 2 := by
  rcases Date.week_later (Date.addDays?_eq_some_iff.mp hnext) with
    ⟨hyear, hweek⟩ | ⟨-, -, hlast, -⟩
  · exact ⟨hyear, by omega⟩
  · omega

theorem holds?_rule (p : Parity) (d : Date) :
    (⟨none, some p⟩ : Rule).holds? d = some (p.holds d.week) :=
  rfl

/-- After the last week of a year, the first week or the second one has the parity. -/
theorem gap_of_search_of_last (hyear : next.weekYear = d.weekYear + 1) (hweek : next.week = 1)
    (hlast : ∀ f : Date, f.weekYear = d.weekYear → f.week ≤ d.week)
    (hcase : p = .odd ∧ d.week = 53 ∨ p = .even ∧ d.week = 52)
    (h : (⟨none, some p⟩ : Rule).Search weeks next e) : p.Gap d e (7 + 7 * weeks) := by
  rcases hcase with ⟨rfl, hd⟩ | ⟨rfl, hd⟩
  · obtain ⟨rfl, rfl⟩ := h.eq_of_holds (by rw [holds?_rule, hweek]; rfl)
    exact .oneWeek rfl ⟨d, hd, le_rfl, by omega⟩ hd hweek
  · obtain ⟨third, rest, hthird, h', rfl⟩ := h.exists_next (by rw [holds?_rule, hweek]; rfl)
    obtain ⟨hyear', hweek'⟩ := second_week hweek hthird
    obtain ⟨rfl, rfl⟩ := h'.eq_of_holds (by rw [holds?_rule, hweek']; rfl)
    exact .twoWeeks (Date.not_acrossLongYear_of_last (hyear'.trans hyear) hlast (by omega))

/-- The search for the next date of the parity begins a week later, and ends after the gap. -/
theorem gap_of_search (hd : p.holds d.week = true) (hnext : d.addDays? 7 = some next)
    (h : (⟨none, some p⟩ : Rule).Search weeks next e) : p.Gap d e (7 + 7 * weeks) := by
  rcases next_week hd hnext with ⟨hyear, hweek, hother⟩ | ⟨hyear, hweek, hlast, hcase⟩
  · obtain ⟨third, rest, hthird, h', rfl⟩ := h.exists_next (by rw [holds?_rule, hother])
    rcases Date.week_later (Date.addDays?_eq_some_iff.mp hthird) with
      ⟨hyear', hweek'⟩ | ⟨hyear', hweek', hlong, hlast⟩
    · have hholds : p.holds third.week = true := by
        rw [hweek', hweek]
        cases p <;> simp only [holds, beq_iff_eq] at hd ⊢ <;> omega
      obtain ⟨rfl, rfl⟩ := h'.eq_of_holds (by rw [holds?_rule, hholds])
      exact .twoWeeks (Date.not_acrossLongYear_of_eq (hyear'.trans hyear))
    · -- the week that is passed over is the last one of the year
      have hle := next.week_le
      rw [hyear] at hyear' hlast
      cases p with
      | odd =>
          obtain ⟨rfl, rfl⟩ := h'.eq_of_holds (by rw [holds?_rule, hweek']; rfl)
          simp only [holds, beq_iff_eq] at hd
          exact .twoWeeks (Date.not_acrossLongYear_of_last hyear' hlast (by omega))
      | even =>
          obtain ⟨fourth, rest, hfourth, h'', rfl⟩ :=
            h'.exists_next (by rw [holds?_rule, hweek']; rfl)
          obtain ⟨hyear'', hweek''⟩ := second_week hweek' hfourth
          obtain ⟨rfl, rfl⟩ := h''.eq_of_holds (by rw [holds?_rule, hweek'']; rfl)
          simp only [holds, beq_iff_eq] at hd
          exact .threeWeeks rfl ⟨next, by omega, by omega, by omega⟩ (by omega) hweek''
  · exact gap_of_search_of_last hyear hweek hlast hcase h

/-- From any date on, a week of the parity comes within two weeks. -/
theorem exists_holds (p : Parity) (hroom : d.number + 14 ≤ lastDay) :
    ∃ e : Date, d.number ≤ e.number ∧ e.number ≤ d.number + 14 ∧ e.weekday = d.weekday
      ∧ p.holds e.week = true := by
  obtain ⟨next, hnext⟩ : ∃ next, d.addDays? 7 = some next := Date.exists_addDays? (by omega)
  have hn := Date.addDays?_eq_some_iff.mp hnext
  have hnw := Date.weekday_addDays?_seven hnext
  obtain ⟨third, hthird⟩ : ∃ third, next.addDays? 7 = some third := Date.exists_addDays? (by omega)
  have ht := Date.addDays?_eq_some_iff.mp hthird
  by_cases hd : p.holds d.week = true
  · exact ⟨d, le_rfl, Nat.le_add_right _ _, rfl, hd⟩
  by_cases hother : p.holds next.week = true
  · exact ⟨next, by omega, by omega, hnw, hother⟩
  refine ⟨third, by omega, by omega, (Date.weekday_addDays?_seven hthird).trans hnw, ?_⟩
  rcases Date.week_later hn with ⟨-, hweek⟩ | ⟨-, hweek, -, -⟩
  · -- two weeks of one year in a row are not both of the other parity
    rw [hweek] at hother
    cases p <;> simp only [holds, beq_iff_eq] at hd hother <;> omega
  · obtain ⟨-, hweek'⟩ := second_week hweek hthird
    rw [hweek] at hother
    rw [hweek']
    cases p with
    | odd => exact absurd rfl hother
    | even => rfl

/-! ### Gaps between occurrences -/

variable {w : Weekday} {time : TimeOfDay} {b : Block} {c t u : Instant} {ts : List Instant}

theorem meets_iff :
    (⟨w, none⟩ : Entry).Meets (some p) d ↔ w = d.weekday ∧ p.holds d.week = true := by
  rw [Entry.Meets, Entry.rule, holds?_rule, Option.some.injEq]

theorem occurs_of_isNext (h : (⟨w, none⟩ : Entry).IsNext (some p) c time t) :
    p.Occurs w time c.offset t :=
  ⟨h.isOn, (meets_iff.mp h.1.2.2.2).2⟩

theorem spaced_of_isNext (ht : p.Occurs w time c.offset t)
    (h : (⟨w, none⟩ : Entry).IsNext (some p) t time u) : p.Spaced t u := by
  have hu := h.isOn
  rw [ht.offset_eq] at hu
  obtain ⟨next, weeks, hnext, hsearch⟩ := h.exists_search ht.toIsOn
  have hnumber := hsearch.number_eq
  rw [Date.addDays?_eq_some_iff.mp hnext, Nat.add_assoc] at hnumber
  exact ⟨7 + 7 * weeks, gap_of_search ht.holds hnext hsearch, ht.toIsOn.position_eq hu hnumber⟩

/-- Three weeks from the end of the calendar there is a next occurrence. -/
theorem exists_nextAfter? (htimes : b.times = [time]) (hdays : b.days = some [⟨w, none⟩])
    (hweeks : b.weeks = some p) (hroom : c.date.number + 21 ≤ lastDay) :
    ∃ t, (Plan.single b).nextAfter? c = some t := by
  obtain ⟨hafter, hnear⟩ := firstAfter_bounds c.date.number w.index
  obtain ⟨d, hd⟩ := Date.exists_number (n := firstAfter c.date.number w.index) (by omega) (by omega)
  have hw : d.weekday = w := by
    rw [Date.weekday_eq_iff, hd]
    exact weekdayIndex_firstAfter w.index_lt
  obtain ⟨e, hle, -, hew, hholds⟩ := p.exists_holds (d := d) (by omega)
  obtain ⟨t, ht⟩ : ∃ t, (⟨w, none⟩ : Entry).IsNext (some p) c time t :=
    Entry.exists_isNext (u := ⟨e, time, c.offset⟩) (Instant.lt_on_iff.mpr (by omega)) rfl rfl
      (meets_iff.mpr ⟨(hew.trans hw).symm, hholds⟩)
  refine ⟨t, (Plan.nextAfter?_eq_some_iff htimes hdays (by omega)).mpr ?_⟩
  rw [hweeks]
  exact ht

/-- In a chain of occurrences, each of them is at the gap from the one before it. -/
theorem spaced_of_isChain (htimes : b.times = [time]) (hdays : b.days = some [⟨w, none⟩])
    (hweeks : b.weeks = some p)
    (h : (c :: ts).IsChain fun s t => (Plan.single b).nextAfter? s = some t) :
    ts.IsChain p.Spaced ∧ ∀ t ∈ ts, p.Occurs w time c.offset t := by
  have hnext {s t : Instant} (h : (Plan.single b).nextAfter? s = some t) :
      (⟨w, none⟩ : Entry).IsNext (some p) s time t := by
    rw [← hweeks]
    exact Plan.isNext_of_nextAfter? htimes hdays h
  induction ts generalizing c with
  | nil => exact ⟨.nil, by simp⟩
  | cons t ts ih =>
      obtain ⟨hct, hrest⟩ := List.isChain_cons_cons.mp h
      have ht := occurs_of_isNext (hnext hct)
      obtain ⟨hspaced, hoccur⟩ := ih hrest
      rw [ht.offset_eq] at hoccur
      constructor
      · cases ts with
        | nil => exact .singleton t
        | cons u us =>
            have htu := (List.isChain_cons_cons.mp hrest).1
            exact .cons_cons (spaced_of_isNext ht (hnext htu)) hspaced
      · exact List.forall_mem_cons.mpr ⟨ht, hoccur⟩

end Parity

namespace Iterator

variable {it : Iterator} {scene : Scene} {c : Instant} {n : Nat}

/-- Before the year 9999, at any offset, almost a year is left of the calendar. -/
theorem number_add_le_of_year_lt (hcursor : it.cursor? = some c)
    (hyear : it.current.date.year < 9999) : c.date.number + 363 ≤ lastDay := by
  have hroom := Date.number_add_le_of_year_le (Nat.le_of_lt_succ hyear)
  have hsame := position_of_cursor? hcursor
  have hposition := c.position_add_offset
  have hposition' := it.current.position_add_offset
  have hoffset := c.offset.lt_day
  have hoffset' := it.current.offset.gt_day
  have htime := it.current.time.lt_day
  unfold microsPerDay at *
  omega

/-- If the plan has a next occurrence as long as almost a year is left of the calendar, the steps that end
before the year 9999 do not fail. -/
theorem exists_take_run_of_year_lt (hskip : it.skipOutdated = false) (hcursor : it.cursor? = some c)
    (hnext : ∀ c : Instant, c.date.number + 363 ≤ lastDay → ∃ t, it.plan.nextAfter? c = some t)
    (hend : ((it.take n).run scene).1.2.current.date.year < 9999) :
    ∃ ts, ((it.take n).run scene).1.1 = .ok ts := by
  induction n generalizing it scene c with
  | zero => exact ⟨[], rfl⟩
  | succ n ih =>
      cases hfound : it.plan.nextAfter? c with
      | none =>
          -- the iterator is where it was, and there is a next occurrence
          obtain ⟨scene', hstep⟩ := next_run_of_eq_none hskip (by rw [hcursor]; exact hfound) scene
          rw [take_succ_run_of_error hstep] at hend
          obtain ⟨t, ht⟩ := hnext c (number_add_le_of_year_lt hcursor hend)
          rw [hfound] at ht
          cases ht
      | some t =>
          obtain ⟨scene', hstep⟩ := next_run_of_nextAfter? hskip hcursor hfound scene
          rw [snd_take_succ_run hstep] at hend
          have hskip' : (it.movedTo t).skipOutdated = false := hskip
          obtain ⟨ts, hts⟩ := ih hskip' (cursor?_movedTo it t) hnext hend
          exact ⟨t :: ts, fst_take_succ_run hstep hts⟩

/-- After steps that do not fail, the iterator is at the last instant that they have found. -/
theorem current_of_take_run {ts : List Instant} (h : ((it.take n).run scene).1.1 = .ok ts) :
    ((it.take n).run scene).1.2.current = ts.getLastD it.current := by
  rw [take_run_eq_takeAmid] at h ⊢
  exact (increasing_of_takeAmid_run h).2

/-- An iterator over a block with one time, one entry for a weekday without a modifier, and weeks of one
parity, that does not skip what is past, does not fail in steps that end before the year 9999.  It finds
instants at this time, on this weekday and in weeks of this parity, each of them two weeks after the one
before it, unless a year with 53 weeks ends between them: then it is one week from the odd week 53 to the
week 1, or three weeks from the even week 52 to the week 2. -/
theorem take_run_everyOtherWeek {b : Block} {w : Weekday} {time : TimeOfDay} {p : Parity}
    {s : Instant} (hplan : it.plan = .single b) (htimes : b.times = [time])
    (hdays : b.days = some [⟨w, none⟩]) (hweeks : b.weeks = some p) (hskip : it.skipOutdated = false)
    (hstart : it.cursor? = some s) (hend : ((it.take n).run scene).1.2.current.date.year < 9999) :
    ∃ ts, ((it.take n).run scene).1.1 = .ok ts ∧ ts.length = n
      ∧ (∀ t ∈ ts, p.Occurs w time s.offset t) ∧ ts.IsChain p.Spaced := by
  obtain ⟨ts, hts⟩ := exists_take_run_of_year_lt hskip hstart (fun c hroom => by
    rw [hplan]
    exact Parity.exists_nextAfter? htimes hdays hweeks (by omega)) hend
  have hfound := hts
  rw [take_run_eq_occurrences? hskip hstart, orOutOfCalendar_eq_ok_iff, hplan] at hfound
  obtain ⟨hspaced, hoccur⟩ :=
    Parity.spaced_of_isChain htimes hdays hweeks (Plan.isChain_of_occurrences? hfound)
  exact ⟨ts, hts, Plan.length_of_occurrences? hfound, hoccur, hspaced⟩

/-- The year 2020 has 53 weeks.  Three steps from the 20th of December on lead to the Mondays of its week 53
and of the weeks 1 and 3 of 2021, or to those of its week 52 and of the weeks 2 and 4. -/
theorem take_run_everyOtherWeek_endOf2020 :
    let block (p : Parity) : Block :=
      ⟨[.onTheHour 6], some [⟨.monday, none⟩], some p, by decide, by decide⟩
    let start : Instant := ⟨⟨737779, by decide, by decide⟩, .onTheHour 0, .utc⟩
    let it (p : Parity) : Iterator := (Plan.single (block p)).iteratorFrom start none
    let weeks : Parity → List (Nat × Nat × Nat)
      | .odd => [(53, 12, 28), (1, 1, 4), (3, 1, 18)]
      | .even => [(52, 12, 21), (2, 1, 11), (4, 1, 25)]
    ∀ (p : Parity) (scene : Scene),
      (((it p).take 3).run scene).1.2.current.date.year < 9999
      ∧ ∃ ts, (((it p).take 3).run scene).1.1 = .ok ts
        ∧ ts.map (fun t => (t.date.week, t.date.month, t.date.day)) = weeks p ∧ ts.length = 3
        ∧ (∀ t ∈ ts, p.Occurs .monday (.onTheHour 6) start.offset t) ∧ ts.IsChain p.Spaced := by
  intro block start it weeks p scene
  have hplan : (it p).plan = .single (block p) := rfl
  have hcursor : (it p).cursor? = some start := rfl
  have hfound : ((Plan.single (block p)).occurrences? 3 start).map
      (fun ts => (ts.map fun t => (t.date.week, t.date.month, t.date.day), (ts.getLastD start).date.year))
        = some (weeks p, 2021) := by
    cases p <;> decide +kernel
  obtain ⟨us, hus, hequal⟩ := Option.map_eq_some_iff.mp hfound
  obtain ⟨hweeks, hyear⟩ := Prod.mk.inj hequal
  have hsteps : (((it p).take 3).run scene).1.1 = .ok us := by
    rw [take_run_eq_occurrences? rfl hcursor, hplan, hus]
    rfl
  have hend : (((it p).take 3).run scene).1.2.current.date.year < 9999 := by
    rw [current_of_take_run hsteps]
    exact hyear.trans_lt (by decide)
  obtain ⟨ts, hts, hrest⟩ := take_run_everyOtherWeek hplan rfl rfl rfl rfl hcursor hend
  obtain rfl : us = ts := Except.ok.inj (hsteps.symm.trans hts)
  exact ⟨hend, us, hts, hweeks, hrest⟩

end Iterator

end Timetable
