import Timetable.Proofs.Occurrence.Stepping

/-! # What a plan reaches

Entries of one weekday share a date, which the first of them moves on and the others move further.  So
of each weekday only the first entry decides what comes next: a block reaches the instants at one of its
times and, where it names weekdays, on the dates that satisfy the first entry for their weekday
(`Block.Reaches`).  Whatever the blocks of a plan are, the next occurrence after a cursor is the first
instant after it that one of them reaches (`Plan.isLeast_nextAfter?`), and it does not depend on the
order of the blocks (`Plan.nextAfter?_congr`).  If a block has candidates after a cursor, it has
candidates after every earlier one too (`Block.exists_candidates?_of_le`). -/

namespace Timetable

/-- The first of the entries that are for a weekday. -/
def Entry.leading? (es : List Entry) (w : Weekday) : Option Entry :=
  es.find? fun e => decide (e.weekday = w)

/-- The instant is at one of the times of the block and, if the block names weekdays, on a date that
satisfies the first entry for its weekday. -/
def Block.Reaches (b : Block) (t : Instant) : Prop :=
  t.time ∈ b.times ∧
    ∀ es, b.days = some es → ∃ e, Entry.leading? es t.date.weekday = some e ∧ e.Meets b.weeks t.date

/-- One of the blocks of the plan reaches the instant. -/
def Plan.Reaches (p : Plan) (t : Instant) : Prop :=
  ∃ b ∈ p.blocks, b.Reaches t

/-! ### The first entry of a weekday -/

namespace Entry

variable {e f : Entry} {es : List Entry} {w : Weekday}

theorem leading?_cons_of_eq (h : e.weekday = w) : leading? (e :: es) w = some e := by
  simp [leading?, h]

theorem leading?_cons_of_ne (h : e.weekday ≠ w) : leading? (e :: es) w = leading? es w := by
  simp [leading?, h]

theorem leading?_eq_none_iff : leading? es w = none ↔ ∀ e ∈ es, e.weekday ≠ w := by
  simp [leading?]

theorem weekday_eq_of_leading? (h : leading? es w = some e) : e.weekday = w := by
  simpa using List.find?_some h

end Entry

namespace Date

variable {parity : Option Parity} {e : Entry} {es : List Entry} {d x : Date} {found : List Date}

/-- The first entry for the weekday of a date moves it to the first of all dates that it reaches. -/
theorem exists_isFirstFrom_of_leading? (h : settle? parity es d = some found)
    (he : Entry.leading? es d.weekday = some e) :
    ∃ x ∈ found, (e.rule parity).IsFirstFrom d x ∧ ∀ y ∈ found, x.number ≤ y.number := by
  induction es with
  | nil => cases he
  | cons f es ih =>
      by_cases hw : f.weekday = d.weekday
      · rw [Entry.leading?_cons_of_eq hw] at he
        obtain rfl := Option.some.inj he
        obtain ⟨x, xs, hx, hxs, rfl⟩ := (settle?_cons_eq_some_iff hw).mp h
        refine ⟨x, List.mem_cons_self, hx, ?_⟩
        intro y hy
        rcases List.mem_cons.mp hy with rfl | hy
        · exact le_rfl
        · exact (meets_of_mem_settle? hxs y hy).1
      · rw [settle?_cons_of_ne hw] at h
        rw [Entry.leading?_cons_of_ne hw] at he
        exact ih h he

/-- A date that can be moved on can be moved on from an earlier date of its weekday too. -/
theorem exists_settle?_of_le (h : settle? parity es x = some found) (hle : d.number ≤ x.number)
    (hw : x.weekday = d.weekday) : ∃ found, settle? parity es d = some found := by
  induction es generalizing d x found with
  | nil => exact ⟨[], rfl⟩
  | cons e es ih =>
      by_cases hew : e.weekday = d.weekday
      · obtain ⟨y, ys, hy, hys, -⟩ := (settle?_cons_eq_some_iff (hew.trans hw.symm)).mp h
        obtain ⟨z, hz, hzy⟩ := exists_isFirstFrom_of_le hle hw hy
        have hyz : y.weekday = z.weekday := hy.weekday_eq.trans (hw.trans hz.weekday_eq.symm)
        obtain ⟨zs, hzs⟩ := ih hys hzy hyz
        exact ⟨z :: zs, (settle?_cons_eq_some_iff hew).mpr ⟨z, zs, hz, hzs, rfl⟩⟩
      · rw [settle?_cons_of_ne fun heq => hew (heq.trans hw)] at h
        rw [settle?_cons_of_ne hew]
        exact ih h hle hw

end Date

/-! ### Earlier cursors -/

namespace Instant

variable {c c' : Instant} {time : TimeOfDay} {ds : List Date}

theorem daysAhead_le_lastDay (h : c.datesAfter? time = some ds) (days : Nat) (hdays : days < 7) :
    c.date.number + c.daysAhead time days ≤ lastDay := by
  have hmem : c.date.number + c.daysAhead time days ∈ ds.map Date.number := by
    rw [datesAfter?_eq_some_iff.mp h]
    exact List.mem_map.mpr ⟨days, List.mem_range.mpr hdays, rfl⟩
  obtain ⟨d, -, hd⟩ := List.mem_map.mp hmem
  rw [← hd]
  exact d.le_last

theorem exists_datesAfter?_of_le (h : c'.datesAfter? time = some ds) (ho : c.offset = c'.offset)
    (hle : c ≤ c') : ∃ ds, c.datesAfter? time = some ds := by
  have hone := c.date.one_le
  have hfirst := daysAhead_le_lastDay h 0 (by decide)
  have hlast : c'.date.number + 6 ≤ lastDay := daysAhead_le_lastDay h 6 (by decide)
  rw [le_iff_of_offset_eq ho] at hle
  apply exists_mapM
  intro days hdays
  have hlt := List.mem_range.mp hdays
  suffices hroom : c.date.number + c.daysAhead time days ≤ lastDay by
    obtain ⟨d, hd⟩ := Date.exists_number (by omega) hroom
    exact ⟨d, datesAfter?_step.mpr hd⟩
  unfold daysAhead at *
  split <;> split at hfirst <;> omega

end Instant

namespace Block

variable {b : Block} {c c' t u : Instant} {time : TimeOfDay} {cs : List Instant} {dates : List Date}

theorem exists_candidateDates?_of_le (h : b.candidateDates? c' time = some dates)
    (ho : c.offset = c'.offset) (hle : c ≤ c') :
    ∃ dates, b.candidateDates? c time = some dates := by
  cases hdays : b.days with
  | none =>
      rw [candidateDates?_of_none hdays] at h ⊢
      exact Instant.exists_datesAfter?_of_le h ho hle
  | some es =>
      obtain ⟨ds', hds', hall, -⟩ := (candidateDates?_eq_some_iff hdays).mp h
      obtain ⟨ds, hds⟩ := Instant.exists_datesAfter?_of_le hds' ho hle
      refine ⟨_, (candidateDates?_eq_some_iff hdays).mpr ⟨ds, hds, ?_, rfl⟩⟩
      intro d hd
      -- the later cursor has a date of the same weekday, and not an earlier one
      obtain ⟨d', hd', hw⟩ := Instant.exists_mem_datesAfter? hds' d.weekday
      have hafter : c < ⟨d', time, c.offset⟩ := by
        rw [ho]
        exact lt_of_le_of_lt hle (Instant.lt_of_mem_datesAfter? hds' hd')
      have hdd' := Instant.le_of_mem_datesAfter? hds hd hw hafter
      obtain ⟨found, hfound⟩ := hall d' hd'
      exact Date.exists_settle?_of_le hfound hdd' hw

theorem exists_candidates?_of_le (h : b.candidates? c' = some cs) (ho : c.offset = c'.offset)
    (hle : c ≤ c') : ∃ cs, b.candidates? c = some cs := by
  obtain ⟨hall, -⟩ := candidates?_eq_some_iff.mp h
  refine ⟨_, candidates?_eq_some_iff.mpr ⟨?_, rfl⟩⟩
  intro time htime
  obtain ⟨dates, hdates⟩ := hall time htime
  exact exists_candidateDates?_of_le hdates ho hle

/-! ### The first instant that is reached -/

/-- No candidate comes before all those that the block reaches. -/
theorem exists_reached_le (h : b.candidates? c = some cs) (ht : t ∈ cs) :
    ∃ u ∈ cs, b.Reaches u ∧ u ≤ t := by
  obtain ⟨ho, htime, dates, hdates, hdate⟩ := (mem_candidates?_iff h).mp ht
  cases hdays : b.days with
  | none =>
      have hreached : b.Reaches t := ⟨htime, fun es hes => by rw [hdays] at hes; cases hes⟩
      exact ⟨t, ht, hreached, le_rfl⟩
  | some es =>
      obtain ⟨ds, hds, hall, rfl⟩ := (candidateDates?_eq_some_iff hdays).mp hdates
      obtain ⟨d, hd, hdate⟩ := List.mem_flatMap.mp hdate
      obtain ⟨found, hfound⟩ := hall d hd
      rw [hfound, Option.getD_some] at hdate
      obtain ⟨-, -, f, hf, hfw, -⟩ := Date.meets_of_mem_settle? hfound t.date hdate
      have hweekday : t.date.weekday = d.weekday := (Date.meets_of_mem_settle? hfound t.date hdate).2.1
      obtain ⟨e, he⟩ : ∃ e, Entry.leading? es d.weekday = some e := by
        apply Option.ne_none_iff_exists'.mp
        intro hnone
        exact Entry.leading?_eq_none_iff.mp hnone f hf (hfw.trans hweekday)
      obtain ⟨x, hx, hfirst, hleast⟩ := Date.exists_isFirstFrom_of_leading? hfound he
      refine ⟨⟨x, t.time, t.offset⟩, ?_, ⟨htime, ?_⟩, Instant.on_le_on_iff.mpr (hleast _ hdate)⟩
      · refine (mem_candidates?_iff h).mpr ⟨ho, htime, _, hdates, List.mem_flatMap.mpr ⟨d, hd, ?_⟩⟩
        rw [hfound]
        exact hx
      · intro es' hes'
        obtain rfl : es = es' := Option.some.inj (hdays.symm.trans hes')
        refine ⟨e, ?_, ?_, hfirst.holds⟩
        · simp only [hfirst.weekday_eq]
          exact he
        · exact (Entry.weekday_eq_of_leading? he).trans hfirst.weekday_eq.symm

/-- No instant that the block reaches comes before all candidates. -/
theorem exists_candidate_le_of_reaches (h : b.candidates? c = some cs) (hu : c < u)
    (ho : u.offset = c.offset) (hreaches : b.Reaches u) : ∃ t ∈ cs, t ≤ u := by
  obtain ⟨htime, hreaches⟩ := hreaches
  obtain ⟨dates, hdates⟩ := (candidates?_eq_some_iff.mp h).1 u.time htime
  have hafter : c < ⟨u.date, u.time, c.offset⟩ := by
    rw [← ho]
    exact hu
  -- it is enough to find an earlier date
  suffices hdate : ∃ date ∈ dates, date.number ≤ u.date.number by
    obtain ⟨date, hdate, hle⟩ := hdate
    refine ⟨⟨date, u.time, u.offset⟩, ?_, Instant.on_le_on_iff.mpr hle⟩
    exact (mem_candidates?_iff h).mpr ⟨ho, htime, dates, hdates, hdate⟩
  cases hdays : b.days with
  | none =>
      rw [candidateDates?_of_none hdays] at hdates
      obtain ⟨d, hd, hw⟩ := Instant.exists_mem_datesAfter? hdates u.date.weekday
      exact ⟨d, hd, Instant.le_of_mem_datesAfter? hdates hd hw.symm hafter⟩
  | some es =>
      obtain ⟨ds, hds, hall, rfl⟩ := (candidateDates?_eq_some_iff hdays).mp hdates
      obtain ⟨e, he, -, hholds⟩ := hreaches es hdays
      obtain ⟨d, hd, hw⟩ := Instant.exists_mem_datesAfter? hds u.date.weekday
      have hdu := Instant.le_of_mem_datesAfter? hds hd hw.symm hafter
      obtain ⟨found, hfound⟩ := hall d hd
      rw [← hw] at he
      obtain ⟨x, hx, hfirst, -⟩ := Date.exists_isFirstFrom_of_leading? hfound he
      refine ⟨x, List.mem_flatMap.mpr ⟨d, hd, ?_⟩, hfirst.least u.date hdu hw.symm hholds⟩
      rw [hfound]
      exact hx

end Block

namespace Plan

variable {p q : Plan} {c t : Instant} {cs : List Instant}

theorem candidates?_eq_some_iff : p.candidates? c = some cs ↔
    (∀ b ∈ p.blocks, ∃ own, b.candidates? c = some own)
      ∧ cs = p.blocks.flatMap fun b => (b.candidates? c).getD [] :=
  mapM_flatten_eq_some_iff

theorem mem_candidates?_iff (h : p.candidates? c = some cs) :
    t ∈ cs ↔ ∃ b ∈ p.blocks, ∃ own, b.candidates? c = some own ∧ t ∈ own := by
  obtain ⟨hall, rfl⟩ := candidates?_eq_some_iff.mp h
  rw [List.mem_flatMap]
  refine exists_congr fun b => and_congr_right fun hb => ?_
  obtain ⟨own, hown⟩ := hall b hb
  simp [hown]

/-- A plan has a next occurrence as soon as each of its blocks has candidates. -/
theorem exists_nextAfter?_iff :
    (∃ t, p.nextAfter? c = some t) ↔ ∀ b ∈ p.blocks, ∃ own, b.candidates? c = some own := by
  constructor
  · rintro ⟨t, ht⟩
    obtain ⟨cs, hcs, -⟩ := Option.bind_eq_some_iff.mp ht
    exact (candidates?_eq_some_iff.mp hcs).1
  · intro hall
    have hcs := candidates?_eq_some_iff.mpr ⟨hall, rfl⟩
    obtain ⟨b, hb⟩ := List.exists_mem_of_ne_nil p.blocks p.blocks_ne
    obtain ⟨own, hown⟩ := hall b hb
    obtain ⟨u, hu⟩ := List.exists_mem_of_ne_nil own (Block.candidates?_ne_nil hown)
    have hmem := (mem_candidates?_iff hcs).mpr ⟨b, hb, own, hown, hu⟩
    obtain ⟨t, ht⟩ := exists_earliest? (List.ne_nil_of_mem hmem)
    exact ⟨t, by rw [nextAfter?, hcs]; exact ht⟩

/-- The next occurrence of a plan is the first instant after the cursor that it reaches. -/
theorem isLeast_nextAfter? (h : p.nextAfter? c = some t) :
    IsLeast {u | c < u ∧ u.offset = c.offset ∧ p.Reaches u} t := by
  obtain ⟨cs, hcs, ht⟩ := Option.bind_eq_some_iff.mp h
  obtain ⟨b, hb, own, hown, hmem⟩ := (mem_candidates?_iff hcs).mp (mem_of_earliest? ht)
  obtain ⟨hlt, ho, -⟩ := Block.covers_of_mem_candidates? hown hmem
  constructor
  · -- what the block reaches before the earliest candidate is this candidate
    obtain ⟨u, hu, hreaches, hut⟩ := Block.exists_reached_le hown hmem
    have htu := earliest?_le ht u ((mem_candidates?_iff hcs).mpr ⟨b, hb, own, hown, hu⟩)
    have huo := (Block.covers_of_mem_candidates? hown hu).2.1
    have heq : u = t := Instant.eq_of_le_of_le (huo.trans ho.symm) hut htu
    rw [heq] at hreaches
    exact ⟨hlt, ho, b, hb, hreaches⟩
  · rintro u ⟨hu, huo, b', hb', hreaches⟩
    obtain ⟨own', hown'⟩ := (candidates?_eq_some_iff.mp hcs).1 b' hb'
    obtain ⟨i, hi, hiu⟩ := Block.exists_candidate_le_of_reaches hown' hu huo hreaches
    exact (earliest?_le ht i ((mem_candidates?_iff hcs).mpr ⟨b', hb', own', hown', hi⟩)).trans hiu

/-- Plans with the same blocks, in whatever order and however often, have the same next occurrence. -/
theorem nextAfter?_congr (h : ∀ b, b ∈ p.blocks ↔ b ∈ q.blocks) (c : Instant) :
    p.nextAfter? c = q.nextAfter? c := by
  have hexists : (∃ t, p.nextAfter? c = some t) ↔ ∃ t, q.nextAfter? c = some t := by
    simp only [exists_nextAfter?_iff, h]
  have hreaches (u : Instant) : p.Reaches u ↔ q.Reaches u := by
    simp only [Reaches, h]
  cases hp : p.nextAfter? c with
  | none =>
      cases hq : q.nextAfter? c with
      | none => rfl
      | some t =>
          obtain ⟨t', ht'⟩ := hexists.mpr ⟨t, hq⟩
          rw [hp] at ht'
          cases ht'
  | some t =>
      obtain ⟨t', hq⟩ := hexists.mp ⟨t, hp⟩
      have hleast := isLeast_nextAfter? hp
      have hleast' := isLeast_nextAfter? hq
      simp only [← hreaches] at hleast'
      have ho : t.offset = t'.offset := hleast.1.2.1.trans hleast'.1.2.1.symm
      rw [hq, Instant.eq_of_le_of_le ho (hleast.2 hleast'.1) (hleast'.2 hleast.1)]

end Plan

end Timetable
