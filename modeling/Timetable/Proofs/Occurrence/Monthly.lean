import Timetable.Proofs.Occurrence.NthWeekday
import Timetable.Proofs.Occurrence.OneEntry

/-! # Once in every month

The one occurrence of a weekday that a modifier names comes once in each month.  From a cursor, the next one
is in the cursor's month, if it is still ahead there, or else in the month after it
(`Modifier.FirstMonth`), and after it the next month has its turn (`Modifier.exists_next_of_firstMonth`).
So an iterator that does not skip what is past goes through as many successive months as it makes steps
(`Iterator.take_run_monthly`). -/

namespace Timetable

/-- The instant is at the time of day and the offset, on the date of the weekday that the modifier names in
its month. -/
structure Modifier.Occurs (m : Modifier) (w : Weekday) (time : TimeOfDay) (offset : Offset)
    (t : Instant) : Prop extends t.IsOn w time offset where
  names : m.Names t.date

/-- The month is the first one from the cursor on in which the occurrence is after the cursor: that of the
cursor if the occurrence is still ahead there, or else the month after it. -/
def Modifier.FirstMonth (m : Modifier) (w : Weekday) (time : TimeOfDay) (c : Instant) (n : Nat) : Prop :=
  let ahead := ∃ t, m.Occurs w time c.offset t ∧ t.date.monthNumber = c.date.monthNumber ∧ c < t
  n = c.date.monthNumber ∧ ahead ∨ n = c.date.monthNumber + 1 ∧ ¬ ahead

/-- The number of the last month of the calendar, the December of the year 9999. -/
def lastMonth : Nat := 12 * 9998 + 11

theorem Entry.meets_none_iff {w : Weekday} {m : Modifier} {d : Date} :
    (⟨w, some m⟩ : Entry).Meets none d ↔ d.weekday = w ∧ m.holds? d = some true := by
  have hrule : ((⟨w, some m⟩ : Entry).rule none).holds? d = m.holds? d := by
    change (m.holds? d).map (· && true) = m.holds? d
    simp
  rw [Entry.Meets, hrule, eq_comm]

namespace Modifier

variable {m : Modifier} {w : Weekday} {time : TimeOfDay} {offset : Offset} {c t u : Instant} {b : Block}
  {n first : Nat}

theorem Occurs.eq (ht : m.Occurs w time offset t) (hu : m.Occurs w time offset u)
    (hmonth : t.date.monthNumber = u.date.monthNumber) : t = u :=
  ht.toIsOn.eq hu.toIsOn (eq_of_inWindow (names_iff_inWindow.mp ht.names)
    (names_iff_inWindow.mp hu.names) hmonth (ht.weekday_eq.trans hu.weekday_eq.symm))

theorem exists_occurs (m : Modifier) (w : Weekday) (time : TimeOfDay) (offset : Offset)
    (hn : n ≤ lastMonth) : ∃ t, m.Occurs w time offset t ∧ t.date.monthNumber = n := by
  obtain ⟨d, hmonth, hw, hwindow⟩ := m.exists_inWindow w (show n < 12 * 9999 by
    unfold lastMonth at hn
    omega)
  exact ⟨⟨d, time, offset⟩, ⟨⟨hw, rfl, rfl⟩, names_iff_inWindow.mpr hwindow⟩, hmonth⟩

theorem exists_firstMonth (m : Modifier) (w : Weekday) (time : TimeOfDay) (c : Instant) :
    ∃ n, m.FirstMonth w time c n := by
  by_cases hahead : ∃ t, m.Occurs w time c.offset t ∧ t.date.monthNumber = c.date.monthNumber ∧ c < t
  · exact ⟨_, .inl ⟨rfl, hahead⟩⟩
  · exact ⟨_, .inr ⟨rfl, hahead⟩⟩

/-- Before the last month of the calendar there are four weeks left. -/
theorem number_add_le_of_monthNumber_lt {d : Date} (h : d.monthNumber < lastMonth) :
    d.number + 28 ≤ lastDay := by
  have hmono := Gregorian.daysBeforeMonthNumber_mono (show d.monthNumber + 1 ≤ lastMonth from h)
  have hsucc : Gregorian.daysBeforeMonthNumber lastMonth + 28 ≤ lastDay :=
    (Gregorian.daysBeforeMonthNumber_succ lastMonth).1
  have hd := (Date.monthNumber_eq_iff.mp (rfl : d.monthNumber = d.monthNumber)).2
  omega

theorem FirstMonth.lt (hfirst : m.FirstMonth w time c n) (ht : m.Occurs w time c.offset t)
    (hmonth : t.date.monthNumber = n) : c < t := by
  rcases hfirst with ⟨rfl, u, hu, hum, hcu⟩ | ⟨rfl, -⟩
  · rwa [ht.eq hu (hmonth.trans hum.symm)]
  · rw [Instant.lt_iff_of_offset_eq ht.offset_eq.symm]
    left
    by_contra hle
    have := Date.monthNumber_mono (d := t.date) (e := c.date) (by omega)
    omega

/-- The occurrences after the cursor are not before the first month. -/
theorem FirstMonth.le (hfirst : m.FirstMonth w time c n) (hu : m.Occurs w time c.offset u)
    (hcu : c < u) : n ≤ u.date.monthNumber := by
  have hdates := (Instant.lt_iff_of_offset_eq hu.offset_eq.symm).mp hcu
  have hmonths : c.date.monthNumber ≤ u.date.monthNumber := Date.monthNumber_mono (by omega)
  rcases hfirst with ⟨rfl, -⟩ | ⟨rfl, hnone⟩
  · exact hmonths
  · have hne : u.date.monthNumber ≠ c.date.monthNumber := fun heq => hnone ⟨u, hu, heq, hcu⟩
    omega

/-- After the occurrence of a month, the next month has its turn. -/
theorem firstMonth_succ (ht : m.Occurs w time offset t) :
    m.FirstMonth w time t (t.date.monthNumber + 1) := by
  refine .inr ⟨rfl, ?_⟩
  rintro ⟨u, hu, hmonth, hlt⟩
  rw [ht.offset_eq] at hu
  rw [hu.eq ht hmonth] at hlt
  exact lt_irrefl t hlt

/-- A step leads to the occurrence of the first month, if this is not the last month of the calendar. -/
theorem exists_next_of_firstMonth (htimes : b.times = [time]) (hdays : b.days = some [⟨w, some m⟩])
    (hweeks : b.weeks = none) (hfirst : m.FirstMonth w time c n) (hn : n < lastMonth) :
    ∃ t, (Plan.single b).nextAfter? c = some t ∧ m.Occurs w time c.offset t
      ∧ t.date.monthNumber = n := by
  obtain ⟨t, ht, hmonth⟩ := m.exists_occurs w time c.offset hn.le
  have hlt := hfirst.lt ht hmonth
  have hroom : t.date.number + 28 ≤ lastDay := number_add_le_of_monthNumber_lt (hmonth.trans_lt hn)
  have hdates := (Instant.lt_iff_of_offset_eq ht.offset_eq.symm).mp hlt
  refine ⟨t, (Plan.nextAfter?_eq_some_iff htimes hdays (by omega)).mpr ⟨?_, ?_⟩, ht, hmonth⟩
  · have hholds := holds?_of_inWindow (by omega) (names_iff_inWindow.mp ht.names)
    rw [hweeks]
    exact ⟨hlt, ht.offset_eq, ht.time_eq, Entry.meets_none_iff.mpr ⟨ht.weekday_eq, hholds⟩⟩
  · rintro u ⟨hcu, huo, hut, humeets⟩
    rw [hweeks] at humeets
    obtain ⟨huw, hholds⟩ := Entry.meets_none_iff.mp humeets
    have hu : m.Occurs w time c.offset u :=
      ⟨⟨huw, hut, huo⟩, names_iff_inWindow.mpr (inWindow_of_holds? hholds)⟩
    have hle := hfirst.le hu hcu
    -- it is the same occurrence, or one in a later month
    rcases Nat.eq_or_lt_of_le hle with heq | hlater
    · rw [ht.eq hu (hmonth.trans heq)]
    · rw [Instant.le_iff_of_time_eq (ht.offset_eq.trans huo.symm) (ht.time_eq.trans hut.symm)]
      by_contra hbefore
      have := Date.monthNumber_mono (d := u.date) (e := t.date) (by omega)
      omega

/-- Step by step, the occurrences go through the months from the first one on. -/
theorem exists_occurrences?_of_firstMonth (htimes : b.times = [time])
    (hdays : b.days = some [⟨w, some m⟩]) (hweeks : b.weeks = none)
    (hfirst : m.FirstMonth w time c first) (hend : first + n ≤ lastMonth) :
    ∃ ts, (Plan.single b).occurrences? n c = some ts
      ∧ ts.map (·.date.monthNumber) = List.range' first n
      ∧ ∀ t ∈ ts, m.Occurs w time c.offset t := by
  induction n generalizing c first with
  | zero => exact ⟨[], rfl, rfl, by simp⟩
  | succ n ih =>
      obtain ⟨t, hnext, ht, rfl⟩ :=
        exists_next_of_firstMonth htimes hdays hweeks hfirst (n := first) (by omega)
      obtain ⟨ts, hts, hmonths, hoccur⟩ := ih (firstMonth_succ ht) (by omega)
      refine ⟨t :: ts, Plan.occurrences?_succ_eq_some_iff.mpr ⟨t, ts, hnext, hts, rfl⟩, ?_, ?_⟩
      · rw [List.map_cons, List.range'_succ, hmonths]
      · intro u hu
        rcases List.mem_cons.mp hu with rfl | hu
        · exact ht
        · rw [← ht.offset_eq]
          exact hoccur u hu

end Modifier

/-- An iterator over a block with one time, one entry for a weekday that a modifier restricts, and no
restriction of the weeks, that does not skip what is past, goes through successive months: the first one from
its cursor on in which the occurrence is after the cursor, and those after it.  In each of them it finds one
instant, on the date of the weekday that the modifier names there, as long as it does not come to the last
month of the calendar. -/
theorem Iterator.take_run_monthly {it : Iterator} {b : Block} {m : Modifier} {w : Weekday}
    {time : TimeOfDay} {s : Instant} (hplan : it.plan = .single b) (htimes : b.times = [time])
    (hdays : b.days = some [⟨w, some m⟩]) (hweeks : b.weeks = none) (hskip : it.skipOutdated = false)
    (hstart : it.cursor? = some s) :
    ∃ first, m.FirstMonth w time s first
      ∧ ∀ (scene : Scene) (n : Nat), first + n ≤ lastMonth →
          ∃ ts, ((it.take n).run scene).1.1 = .ok ts
            ∧ ts.map (·.date.monthNumber) = List.range' first n
            ∧ ∀ t ∈ ts, m.Occurs w time s.offset t := by
  obtain ⟨first, hfirst⟩ := m.exists_firstMonth w time s
  refine ⟨first, hfirst, fun scene n hend => ?_⟩
  obtain ⟨ts, hts, hmonths, hoccur⟩ :=
    Modifier.exists_occurrences?_of_firstMonth htimes hdays hweeks hfirst hend
  refine ⟨ts, ?_, hmonths, hoccur⟩
  rw [take_run_eq_occurrences? hskip hstart, hplan, hts]
  rfl

/-- From the very moment of the last Friday of January 2021, three steps lead to the last Fridays of
February, March and April, the last of which is the fifth Friday of its month. -/
theorem Iterator.take_run_monthly_lastFridays :
    let block : Block :=
      ⟨[.onTheHour 12], some [⟨.friday, some .last⟩], none, by decide, by decide⟩
    let start : Instant := ⟨⟨737819, by decide, by decide⟩, .onTheHour 12, .utc⟩
    let it : Iterator := (Plan.single block).iteratorFrom start none
    ∀ scene : Scene, ∃ first ts, Modifier.last.FirstMonth .friday (.onTheHour 12) start first
      ∧ first + 3 ≤ lastMonth
      ∧ ((it.take 3).run scene).1.1 = .ok ts
      ∧ ts.map (fun t => (t.date.month, t.date.day)) = [(2, 26), (3, 26), (4, 30)]
      ∧ ts.map (·.date.monthNumber) = List.range' first 3
      ∧ ∀ t ∈ ts, Modifier.last.Occurs .friday (.onTheHour 12) start.offset t := by
  intro block start it scene
  have hplan : it.plan = .single block := rfl
  have hcursor : it.cursor? = some start := rfl
  obtain ⟨first, hfirst, htake⟩ := take_run_monthly hplan rfl rfl rfl rfl hcursor
  have hend : first + 3 ≤ lastMonth := by
    rcases hfirst with ⟨rfl, -⟩ | ⟨rfl, -⟩ <;> decide
  obtain ⟨ts, hts, hmonths, hoccur⟩ := htake scene 3 hend
  refine ⟨first, ts, hfirst, hend, hts, ?_, hmonths, hoccur⟩
  have hfound : ((Plan.single block).occurrences? 3 start).map
      (·.map fun t => (t.date.month, t.date.day)) = some [(2, 26), (3, 26), (4, 30)] := by
    decide +kernel
  rw [take_run_eq_occurrences? rfl hcursor, orOutOfCalendar_eq_ok_iff] at hts
  change (Plan.single block).occurrences? 3 start = some ts at hts
  rw [hts] at hfound
  exact Option.some.inj hfound

end Timetable
