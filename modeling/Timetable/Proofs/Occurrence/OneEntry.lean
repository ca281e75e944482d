import Timetable.Proofs.Occurrence.Horizon
import Timetable.Proofs.Occurrence.Merging

/-! # Blocks with one time and one entry

From a cursor, a block with a single time of day and a single entry goes on to the next instant at this
time that satisfies the entry, and to no other one (`Plan.nextAfter?_eq_some_iff`).  So what its steps find
is a chain of such instants, each the next one after the one before it (`Plan.isChain_of_occurrences?`), and
the search for each of them begins a week after the one before it (`Entry.IsNext.exists_search`). -/

namespace Timetable

/-- The instant is at the time of day and the offset, on a date of the weekday. -/
structure Instant.IsOn (t : Instant) (w : Weekday) (time : TimeOfDay) (offset : Offset) : Prop where
  weekday_eq : t.date.weekday = w
  time_eq : t.time = time
  offset_eq : t.offset = offset

variable {t u c : Instant} {w : Weekday} {time : TimeOfDay} {offset : Offset} {e : Entry}
  {parity : Option Parity}

theorem Instant.IsOn.eq (ht : t.IsOn w time offset) (hu : u.IsOn w time offset)
    (hdate : t.date = u.date) : t = u := by
  obtain ⟨dt, tt, ot⟩ := t
  obtain ⟨du, tu, ou⟩ := u
  simp only [Instant.mk.injEq]
  exact ⟨hdate, ht.time_eq.trans hu.time_eq.symm, ht.offset_eq.trans hu.offset_eq.symm⟩

theorem Instant.IsOn.position_eq (ht : t.IsOn w time offset) (hu : u.IsOn w time offset) {days : Nat}
    (h : u.date.number = t.date.number + days) : u.position = t.position + days * microsPerDay := by
  have hposition := t.position_add_offset
  have hposition' := u.position_add_offset
  rw [ht.time_eq, ht.offset_eq] at hposition
  rw [hu.time_eq, hu.offset_eq, h] at hposition'
  push_cast at hposition'
  unfold microsPerDay at *
  omega

theorem Entry.IsNext.isOn (h : e.IsNext parity c time t) : t.IsOn e.weekday time c.offset := by
  obtain ⟨-, ho, htime, hmeets⟩ := h.1
  exact ⟨hmeets.1.symm, htime, ho⟩

/-- From an instant at its time and on its weekday, the search for the next one of an entry begins a week
later. -/
theorem Entry.IsNext.exists_search (h : e.IsNext parity t time u) (ht : t.IsOn e.weekday time offset) :
    ∃ next weeks, t.date.addDays? 7 = some next
      ∧ (e.rule parity).Search weeks next u.date := by
  have hu := h.isOn
  have hlt := (Instant.lt_iff_of_offset_eq hu.offset_eq.symm).mp h.1.1
  have hmod := Date.weekday_eq_weekday_iff.mp (hu.weekday_eq.trans ht.weekday_eq.symm)
  have hlast := u.date.le_last
  rw [ht.time_eq, hu.time_eq] at hlt
  have hroom : t.date.number + 7 ≤ lastDay := by omega
  obtain ⟨next, hnext⟩ : ∃ next, t.date.addDays? 7 = some next := Date.exists_addDays? hroom
  obtain ⟨ds, hds⟩ : ∃ ds, t.datesAfter? time = some ds := Instant.exists_datesAfter? hroom
  have hmem : next ∈ ds := by
    refine (Instant.mem_datesAfter?_iff hds).mpr ⟨0, by decide, ?_⟩
    rw [Instant.daysAhead, if_pos ⟨rfl, by rw [ht.time_eq]⟩]
    exact Date.addDays?_eq_some_iff.mp hnext
  have hw : e.weekday = next.weekday :=
    ht.weekday_eq.symm.trans (Date.weekday_addDays?_seven hnext).symm
  obtain ⟨-, -, hfirst⟩ := (Block.isNext_iff_isFirstFrom hds hmem hw).mp h
  obtain ⟨weeks, hsearch⟩ := Rule.exists_search_of_firstFrom? (Rule.firstFrom?_eq_some_iff.mpr hfirst)
  exact ⟨next, weeks, hnext, hsearch⟩

/-- If an instant after the cursor satisfies the entry, there is a first one. -/
theorem Entry.exists_isNext (hlt : c < u) (ho : u.offset = c.offset) (htime : u.time = time)
    (hmeets : e.Meets parity u.date) : ∃ t, e.IsNext parity c time t := by
  obtain ⟨t, ht, hfirst⟩ := (measure fun t : Instant => t.date.number).wf.has_min
    {t | c < t ∧ t.offset = c.offset ∧ t.time = time ∧ e.Meets parity t.date}
    ⟨u, hlt, ho, htime, hmeets⟩
  refine ⟨t, ht, fun x hx => ?_⟩
  obtain ⟨-, hto, htt, -⟩ := ht
  rw [Instant.le_iff_of_time_eq (hto.trans hx.2.1.symm) (htt.trans hx.2.2.1.symm)]
  exact Nat.le_of_not_lt (hfirst x hx)

namespace Plan

variable {b : Block} {p : Plan} {n : Nat} {ts : List Instant}

theorem reaches_iff_of_oneEntry (htimes : b.times = [time]) (hdays : b.days = some [e]) :
    (single b).Reaches t ↔ t.time = time ∧ e.Meets b.weeks t.date := by
  have hblock : (single b).Reaches t ↔ b.Reaches t :=
    ⟨fun ⟨_, hb, ht⟩ => List.mem_singleton.mp hb ▸ ht, fun ht => ⟨b, List.mem_singleton_self b, ht⟩⟩
  rw [hblock, Block.Reaches, htimes, List.mem_singleton]
  refine and_congr_right fun _ => ⟨fun h => ?_, fun hmeets es hes => ?_⟩
  · obtain ⟨f, hf, hmeets⟩ := h [e] hdays
    obtain rfl := List.mem_singleton.mp (List.mem_of_find?_eq_some hf)
    exact hmeets
  · obtain rfl : [e] = es := Option.some.inj (hdays.symm.trans hes)
    exact ⟨e, Entry.leading?_cons_of_eq hmeets.1, hmeets⟩

theorem isNext_of_nextAfter? (htimes : b.times = [time]) (hdays : b.days = some [e])
    (h : (single b).nextAfter? c = some t) : e.IsNext b.weeks c time t := by
  have hleast := isLeast_nextAfter? h
  simp only [reaches_iff_of_oneEntry htimes hdays] at hleast
  exact hleast

/-- A week from the end of the calendar, the next occurrence is found if there is one. -/
theorem nextAfter?_eq_some_iff (htimes : b.times = [time]) (hdays : b.days = some [e])
    (hroom : c.date.number + 7 ≤ lastDay) :
    (single b).nextAfter? c = some t ↔ e.IsNext b.weeks c time t := by
  refine ⟨isNext_of_nextAfter? htimes hdays, fun hnext => ?_⟩
  obtain ⟨ds, hds⟩ : ∃ ds, c.datesAfter? time = some ds := Instant.exists_datesAfter? hroom
  have hsettled : ∀ d ∈ ds, ∃ found, d.settle? b.weeks [e] = some found := by
    intro d hd
    by_cases hw : e.weekday = d.weekday
    · obtain ⟨-, -, hfirst⟩ := (Block.isNext_iff_isFirstFrom hds hd hw).mp hnext
      exact ⟨_, Date.settle?_singleton hw hfirst⟩
    · exact ⟨[], Date.settle?_cons_of_ne hw⟩
  have hcandidates : ∃ cs, b.candidates? c = some cs := by
    refine ⟨_, Block.candidates?_eq_some_iff.mpr ⟨fun time' htime' => ?_, rfl⟩⟩
    rw [htimes, List.mem_singleton] at htime'
    rw [htime']
    exact ⟨_, (Block.candidateDates?_eq_some_iff hdays).mpr ⟨ds, hds, hsettled, rfl⟩⟩
  obtain ⟨u, hu⟩ : ∃ u, (single b).nextAfter? c = some u :=
    exists_nextAfter?_iff.mpr fun b' hb' => List.mem_singleton.mp hb' ▸ hcandidates
  -- there is only one next instant
  have hnext' := isNext_of_nextAfter? htimes hdays hu
  have ho : u.offset = t.offset := hnext'.1.2.1.trans hnext.1.2.1.symm
  rw [hu, Instant.eq_of_le_of_le ho (hnext'.2 hnext.1) (hnext.2 hnext'.1)]

/-- Each occurrence is the next one after the one before it, and the first of them after the cursor. -/
theorem isChain_of_occurrences? (h : p.occurrences? n c = some ts) :
    (c :: ts).IsChain fun s t => p.nextAfter? s = some t := by
  induction n generalizing c ts with
  | zero =>
      obtain rfl := Option.some.inj h
      exact .singleton c
  | succ n ih =>
      obtain ⟨t, us, hnext, hus, rfl⟩ := occurrences?_succ_eq_some_iff.mp h
      exact .cons_cons hnext (ih hus)

end Plan

end Timetable
