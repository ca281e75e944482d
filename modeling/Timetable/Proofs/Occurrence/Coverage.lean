import Mathlib.Order.Bounds.Basic
import Timetable.Proofs.Occurrence.Settling
import Timetable.Proofs.Occurrence.Window

/-! # What a block covers

A block covers an instant if the time of day is one of its times and, where it names weekdays, the date
satisfies one of its entries (`Block.Covers`).  Every candidate comes after the cursor and is covered
(`Block.covers_of_mem_candidates?`).  For each time of day an entry has a first instant after the cursor
that satisfies it (`Entry.IsNext`); if the entries of one weekday stand in the order of these
(`Block.InOrder`), then no covered instant comes before all candidates
(`Block.exists_candidate_le`), and the earliest candidate is the first instant after the cursor that the
block covers (`Block.isLeast_earliest?`). -/

namespace Timetable

/-- The instant is at one of the times of the block and, if the block names weekdays, on a date that
satisfies one of its entries. -/
def Block.Covers (b : Block) (t : Instant) : Prop :=
  t.time ∈ b.times ∧ ∀ es, b.days = some es → ∃ e ∈ es, e.Meets b.weeks t.date

/-- The first instant after the cursor, at the given time of day and at the cursor's offset, that
satisfies an entry. -/
def Entry.IsNext (e : Entry) (parity : Option Parity) (cursor : Instant) (time : TimeOfDay)
    (t : Instant) : Prop :=
  IsLeast {u | cursor < u ∧ u.offset = cursor.offset ∧ u.time = time ∧ e.Meets parity u.date} t

/-- At each time of day, the entries of one weekday stand in the order of the first instants after the
cursor that satisfy them. -/
def Block.InOrder (b : Block) (cursor : Instant) : Prop :=
  ∀ es, b.days = some es → ∀ time ∈ b.times, es.Pairwise fun e f => e.weekday = f.weekday →
    ∀ t u, e.IsNext b.weeks cursor time t → f.IsNext b.weeks cursor time u → t ≤ u

/-! ### Candidates as joined lists -/

theorem eq_map_getD_of_mapM {α β : Type} {f : α → Option (List β)} {xs : List α}
    {parts : List (List β)} (h : xs.mapM f = some parts) : parts = xs.map fun x => (f x).getD [] := by
  calc parts = (parts.map some).map (·.getD []) := by simp
    _ = xs.map fun x => (f x).getD [] := by rw [← mapM_eq_some_iff.mp h, List.map_map]; rfl

theorem mapM_flatten_eq_some_iff {α β : Type} {f : α → Option (List β)} {xs : List α} {ys : List β} :
    (do let parts ← xs.mapM f
        return parts.flatten) = some ys ↔
      (∀ x ∈ xs, ∃ zs, f x = some zs) ∧ ys = xs.flatMap fun x => (f x).getD [] := by
  rw [List.flatMap_def]
  constructor
  · intro h
    obtain ⟨parts, hparts, hys⟩ := Option.bind_eq_some_iff.mp h
    refine ⟨?_, ?_⟩
    · intro x hx
      have hmem : f x ∈ parts.map some := mapM_eq_some_iff.mp hparts ▸ List.mem_map_of_mem hx
      obtain ⟨zs, -, hzs⟩ := List.mem_map.mp hmem
      exact ⟨zs, hzs.symm⟩
    · rw [← eq_map_getD_of_mapM hparts]
      exact (Option.some.inj hys).symm
  · rintro ⟨hall, rfl⟩
    obtain ⟨parts, hparts⟩ := exists_mapM hall
    rw [hparts, ← eq_map_getD_of_mapM hparts]
    rfl

namespace Block

variable {b : Block} {cursor t u : Instant} {time : TimeOfDay} {cs : List Instant}
  {es : List Entry} {d x : Date} {ds dates : List Date}

/-- The dates found for a time of day, none if the calendar ends before. -/
def datesFor (b : Block) (cursor : Instant) (time : TimeOfDay) : List Date :=
  (b.candidateDates? cursor time).getD []

theorem candidates?_eq_some_iff : b.candidates? cursor = some cs ↔
    (∀ time ∈ b.times, ∃ dates, b.candidateDates? cursor time = some dates)
      ∧ cs = b.times.flatMap fun time =>
        (b.datesFor cursor time).map fun date => ⟨date, time, cursor.offset⟩ := by
  rw [candidates?, mapM_flatten_eq_some_iff]
  have hexists (time : TimeOfDay) : (∃ zs : List Instant, (do
        let dates ← b.candidateDates? cursor time
        return dates.map fun date => (⟨date, time, cursor.offset⟩ : Instant)) = some zs)
      ↔ ∃ dates, b.candidateDates? cursor time = some dates := by
    cases b.candidateDates? cursor time <;> simp
  have hget (time : TimeOfDay) : (do
        let dates ← b.candidateDates? cursor time
        return dates.map fun date => (⟨date, time, cursor.offset⟩ : Instant)).getD []
      = (b.datesFor cursor time).map fun date => ⟨date, time, cursor.offset⟩ := by
    rw [datesFor]
    cases b.candidateDates? cursor time <;> rfl
  simp only [hexists, hget]

theorem candidateDates?_of_none (hdays : b.days = none) :
    b.candidateDates? cursor time = cursor.datesAfter? time := by
  rw [candidateDates?, hdays]
  cases cursor.datesAfter? time <;> rfl

theorem candidateDates?_eq_some_iff (hdays : b.days = some es) :
    b.candidateDates? cursor time = some dates ↔
      ∃ ds, cursor.datesAfter? time = some ds
        ∧ (∀ d ∈ ds, ∃ found, d.settle? b.weeks es = some found)
        ∧ dates = ds.flatMap fun d => (d.settle? b.weeks es).getD [] := by
  rw [candidateDates?, hdays]
  exact Option.bind_eq_some_iff.trans
    (exists_congr fun ds => and_congr_right fun _ => mapM_flatten_eq_some_iff)

theorem mem_candidates?_iff (h : b.candidates? cursor = some cs) :
    t ∈ cs ↔ t.offset = cursor.offset ∧ t.time ∈ b.times
      ∧ ∃ dates, b.candidateDates? cursor t.time = some dates ∧ t.date ∈ dates := by
  obtain ⟨hall, rfl⟩ := candidates?_eq_some_iff.mp h
  simp only [List.mem_flatMap, List.mem_map]
  constructor
  · rintro ⟨time, htime, date, hdate, rfl⟩
    obtain ⟨dates, hdates⟩ := hall time htime
    rw [datesFor, hdates] at hdate
    exact ⟨rfl, htime, dates, hdates, hdate⟩
  · rintro ⟨hoffset, htime, dates, hdates, hdate⟩
    refine ⟨t.time, htime, t.date, ?_, ?_⟩
    · rw [datesFor, hdates]
      exact hdate
    · rw [← hoffset]

/-! ### Candidates are covered -/

theorem covers_of_mem_candidates? (h : b.candidates? cursor = some cs) (ht : t ∈ cs) :
    cursor < t ∧ t.offset = cursor.offset ∧ b.Covers t := by
  obtain ⟨hoffset, htime, dates, hdates, hdate⟩ := (mem_candidates?_iff h).mp ht
  cases hdays : b.days with
  | none =>
      rw [candidateDates?_of_none hdays] at hdates
      have hlt := Instant.lt_of_mem_datesAfter? hdates hdate
      rw [← hoffset] at hlt
      exact ⟨hlt, hoffset, htime, fun es hes => by rw [hdays] at hes; cases hes⟩
  | some es =>
      obtain ⟨ds, hds, hall, rfl⟩ := (candidateDates?_eq_some_iff hdays).mp hdates
      obtain ⟨d, hd, hdate⟩ := List.mem_flatMap.mp hdate
      obtain ⟨found, hfound⟩ := hall d hd
      rw [hfound, Option.getD_some] at hdate
      obtain ⟨hle, -, e, he, hmeets⟩ := Date.meets_of_mem_settle? hfound t.date hdate
      have hlt := Instant.lt_on_iff.mp (Instant.lt_of_mem_datesAfter? hds hd)
      refine ⟨?_, hoffset, htime, ?_⟩
      · rw [Instant.lt_iff_of_offset_eq hoffset.symm]
        omega
      · intro es' hes'
        obtain rfl : es = es' := Option.some.inj (hdays.symm.trans hes')
        exact ⟨e, he, hmeets⟩

/-- There is always a candidate, as the lists of a block are not empty. -/
theorem candidates?_ne_nil (h : b.candidates? cursor = some cs) : cs ≠ [] := by
  obtain ⟨time, htime⟩ := List.exists_mem_of_ne_nil b.times b.times_ne
  obtain ⟨dates, hdates⟩ := (candidates?_eq_some_iff.mp h).1 time htime
  suffices hdate : ∃ date, date ∈ dates by
    obtain ⟨date, hdate⟩ := hdate
    exact List.ne_nil_of_mem ((mem_candidates?_iff h (t := ⟨date, time, cursor.offset⟩)).mpr
      ⟨rfl, htime, dates, hdates, hdate⟩)
  cases hdays : b.days with
  | none =>
      rw [candidateDates?_of_none hdays] at hdates
      obtain ⟨d, hd, -⟩ := Instant.exists_mem_datesAfter? hdates .monday
      exact ⟨d, hd⟩
  | some es =>
      obtain ⟨ds, hds, hall, rfl⟩ := (candidateDates?_eq_some_iff hdays).mp hdates
      cases es with
      | nil => exact absurd hdays b.days_ne
      | cons e es =>
          obtain ⟨d, hd, hw⟩ := Instant.exists_mem_datesAfter? hds e.weekday
          obtain ⟨found, hfound⟩ := hall d hd
          obtain ⟨x, xs, -, -, rfl⟩ := (Date.settle?_cons_eq_some_iff hw.symm).mp hfound
          refine ⟨x, List.mem_flatMap.mpr ⟨d, hd, ?_⟩⟩
          rw [hfound]
          exact List.mem_cons_self

/-! ### Entries in order -/

/-- Among the seven dates, the one of its weekday leads an entry to its next instant. -/
theorem isNext_iff_isFirstFrom {e : Entry} {parity : Option Parity}
    (h : cursor.datesAfter? time = some ds) (hd : d ∈ ds) (hw : e.weekday = d.weekday) :
    e.IsNext parity cursor time t ↔
      t.offset = cursor.offset ∧ t.time = time ∧ (e.rule parity).IsFirstFrom d t.date := by
  have hlt := Instant.lt_on_iff.mp (Instant.lt_of_mem_datesAfter? h hd)
  have hafter {f : Date} (hf : d.number ≤ f.number) : cursor < ⟨f, time, cursor.offset⟩ :=
    Instant.lt_on_iff.mpr (by omega)
  constructor
  · rintro ⟨⟨hcursor, ho, rfl, htw, htholds⟩, hleast⟩
    have htd : t.date.weekday = d.weekday := htw.symm.trans hw
    have hle := Instant.le_of_mem_datesAfter? h hd htd (by rw [← ho]; exact hcursor)
    refine ⟨ho, rfl, hle, htd, htholds, ?_⟩
    intro f hf hfw hfholds
    exact (Instant.le_iff_of_time_eq (j := ⟨f, t.time, cursor.offset⟩) ho rfl).mp
      (hleast ⟨hafter hf, rfl, rfl, hw.trans hfw.symm, hfholds⟩)
  · rintro ⟨ho, rfl, hx⟩
    have hcursor : cursor < t := by
      have := hafter hx.le
      rwa [← ho] at this
    refine ⟨⟨hcursor, ho, rfl, hw.trans hx.weekday_eq.symm, hx.holds⟩, ?_⟩
    rintro u ⟨hu, huo, hut, huw, huholds⟩
    have hud : u.date.weekday = d.weekday := huw.symm.trans hw
    have hdu := Instant.le_of_mem_datesAfter? h hd hud (by rw [← huo, ← hut]; exact hu)
    exact (Instant.le_iff_of_time_eq (ho.trans huo.symm) hut.symm).mpr
      (hx.least u.date hdu hud huholds)

/-- The own dates of the entries come in order, from each of the seven dates, exactly when the entries
of each weekday stand in the order of their next instants. -/
theorem pairwise_ownDates_iff {parity : Option Parity} (h : cursor.datesAfter? time = some ds) :
    (∀ d ∈ ds, (d.ownDates parity es).Pairwise fun x y => x.number ≤ y.number) ↔
      es.Pairwise fun e f => e.weekday = f.weekday →
        ∀ t u, e.IsNext parity cursor time t → f.IsNext parity cursor time u → t ≤ u := by
  simp only [Date.ownDates, List.pairwise_flatMap, Date.mem_settle?_singleton_iff,
    Date.pairwise_settle?_singleton, implies_true, true_and]
  simp only [List.pairwise_iff_forall_sublist]
  constructor
  · intro hall e f hsub hef t u ht hu
    obtain ⟨d, hd, hw⟩ := Instant.exists_mem_datesAfter? h e.weekday
    obtain ⟨hto, htt, ht⟩ := (isNext_iff_isFirstFrom h hd hw.symm).mp ht
    obtain ⟨huo, hut, hu⟩ := (isNext_iff_isFirstFrom h hd (hef.symm.trans hw.symm)).mp hu
    rw [Instant.le_iff_of_time_eq (hto.trans huo.symm) (htt.trans hut.symm)]
    exact hall d hd hsub t.date ⟨hw.symm, ht⟩ u.date ⟨hef.symm.trans hw.symm, hu⟩
  · intro hall d hd e f hsub x hx y hy
    have ht := (isNext_iff_isFirstFrom (t := ⟨x, time, cursor.offset⟩) h hd hx.1).mpr ⟨rfl, rfl, hx.2⟩
    have hu := (isNext_iff_isFirstFrom (t := ⟨y, time, cursor.offset⟩) h hd hy.1).mpr ⟨rfl, rfl, hy.2⟩
    have hle := hall hsub (hx.1.trans hy.1.symm) _ _ ht hu
    exact Instant.on_le_on_iff.mp hle

/-- A date that is moved on reaches the own dates of all entries if they are in order, and only then. -/
theorem settle?_eq_ownDates_iff_pairwise {parity : Option Parity} {found : List Date}
    (h : d.settle? parity es = some found) :
    found = d.ownDates parity es ↔
      (d.ownDates parity es).Pairwise fun x y => x.number ≤ y.number := by
  rw [Date.settle?_eq_ownDates_iff h le_rfl rfl, List.pairwise_cons, and_iff_right]
  intro x hx
  obtain ⟨e, -, -, hfirst⟩ := Date.mem_ownDates_iff.mp hx
  exact hfirst.le

/-! ### No covered instant is skipped -/

theorem exists_candidate_le (h : b.candidates? cursor = some cs) (hordered : b.InOrder cursor)
    (hu : cursor < u) (ho : u.offset = cursor.offset) (hcovers : b.Covers u) :
    ∃ t ∈ cs, t ≤ u := by
  obtain ⟨htime, hcovers⟩ := hcovers
  obtain ⟨dates, hdates⟩ := (candidates?_eq_some_iff.mp h).1 u.time htime
  -- it is enough to find an earlier date
  suffices hdate : ∃ date ∈ dates, date.number ≤ u.date.number by
    obtain ⟨date, hdate, hle⟩ := hdate
    refine ⟨⟨date, u.time, u.offset⟩, ?_, Instant.on_le_on_iff.mpr hle⟩
    exact (mem_candidates?_iff h).mpr ⟨ho, htime, dates, hdates, hdate⟩
  cases hdays : b.days with
  | none =>
      rw [candidateDates?_of_none hdays] at hdates
      obtain ⟨d, hd, hw⟩ := Instant.exists_mem_datesAfter? hdates u.date.weekday
      exact ⟨d, hd, Instant.le_of_mem_datesAfter? hdates hd hw.symm (by rw [← ho]; exact hu)⟩
  | some es =>
      obtain ⟨ds, hds, hall, rfl⟩ := (candidateDates?_eq_some_iff hdays).mp hdates
      obtain ⟨e, he, hew, heholds⟩ := hcovers es hdays
      obtain ⟨d, hd, hw⟩ := Instant.exists_mem_datesAfter? hds u.date.weekday
      have hdu := Instant.le_of_mem_datesAfter? hds hd hw.symm (by rw [← ho]; exact hu)
      obtain ⟨found, hfound⟩ := hall d hd
      obtain ⟨x, hx⟩ := Rule.exists_firstFrom? hdu hw.symm heholds
      have hx' := Rule.firstFrom?_eq_some_iff.mp hx
      have hown : found = d.ownDates b.weeks es :=
        (settle?_eq_ownDates_iff_pairwise hfound).mpr
          ((pairwise_ownDates_iff hds).mpr (hordered es hdays u.time htime) d hd)
      refine ⟨x, List.mem_flatMap.mpr ⟨d, hd, ?_⟩, hx'.least u.date hdu hw.symm heholds⟩
      rw [hfound, hown]
      exact Date.mem_ownDates_iff.mpr ⟨e, he, hew.trans hw.symm, hx'⟩

end Block

/-! ### The earliest candidate -/

theorem foldl_earlier (i : Instant) : ∀ is : List Instant,
    is.foldl (fun best j => if j < best then j else best) i ∈ i :: is
      ∧ ∀ j ∈ i :: is, is.foldl (fun best j => if j < best then j else best) i ≤ j
  | [] => by simp
  | j :: is => by
      rw [List.foldl_cons]
      by_cases hlt : j < i
      · obtain ⟨hmem, hle⟩ := foldl_earlier j is
        rw [if_pos hlt]
        refine ⟨List.mem_cons_of_mem i hmem, ?_⟩
        intro k hk
        rcases List.mem_cons.mp hk with rfl | hk
        · exact (hle j List.mem_cons_self).trans (le_of_lt hlt)
        · exact hle k hk
      · obtain ⟨hmem, hle⟩ := foldl_earlier i is
        rw [if_neg hlt]
        refine ⟨?_, ?_⟩
        · rcases List.mem_cons.mp hmem with heq | hmem
          · rw [heq]
            exact List.mem_cons_self
          · exact List.mem_cons_of_mem i (List.mem_cons_of_mem j hmem)
        · intro k hk
          rcases List.mem_cons.mp hk with rfl | hk
          · exact hle k List.mem_cons_self
          · rcases List.mem_cons.mp hk with rfl | hk
            · exact (hle i List.mem_cons_self).trans (Instant.not_lt_iff.mp hlt)
            · exact hle k (List.mem_cons_of_mem i hk)

theorem mem_of_earliest? {is : List Instant} {t : Instant} (h : earliest? is = some t) : t ∈ is := by
  cases is with
  | nil => cases h
  | cons i is =>
      obtain rfl := Option.some.inj h
      exact (foldl_earlier i is).1

theorem earliest?_le {is : List Instant} {t : Instant} (h : earliest? is = some t) :
    ∀ i ∈ is, t ≤ i := by
  cases is with
  | nil => cases h
  | cons i is =>
      obtain rfl := Option.some.inj h
      exact (foldl_earlier i is).2

theorem exists_earliest? {is : List Instant} (h : is ≠ []) : ∃ t, earliest? is = some t := by
  cases is with
  | nil => exact absurd rfl h
  | cons i is => exact ⟨_, rfl⟩

/-- If the entries are in order, the earliest candidate is the first instant after the cursor that the
block covers. -/
theorem Block.isLeast_earliest? {b : Block} {cursor t : Instant} {cs : List Instant}
    (h : b.candidates? cursor = some cs) (hordered : b.InOrder cursor) (ht : earliest? cs = some t) :
    IsLeast {u | cursor < u ∧ u.offset = cursor.offset ∧ b.Covers u} t := by
  refine ⟨covers_of_mem_candidates? h (mem_of_earliest? ht), ?_⟩
  rintro u ⟨hu, ho, hcovers⟩
  obtain ⟨i, hi, hle⟩ := exists_candidate_le h hordered hu ho hcovers
  exact (earliest?_le ht i hi).trans hle

end Timetable
