import Timetable.Proofs.Occurrence.Coverage

/-! # Entries alone and together

With one entry alone a block has, for each time of day, one candidate: the first instant after the cursor
that satisfies the entry (`Block.forall₂_isNext_ownCandidates`).  All entries together have the candidates
that they have alone, in another order, exactly when the entries of each weekday stand in the order of
these instants (`Block.perm_ownCandidates_iff`): the date is moved on from entry to entry, so that an entry
loses what lies before the date of an earlier one. -/

namespace Timetable

/-! ### Joined lists -/

theorem flatMap_flatMap_perm {α β γ : Type} (f : α → β → List γ) (ys : List β) :
    ∀ xs : List α, (xs.flatMap fun x => ys.flatMap (f x)).Perm (ys.flatMap fun y => xs.flatMap (f · y))
  | [] => by simp
  | x :: xs => by
      rw [List.flatMap_cons]
      refine ((flatMap_flatMap_perm f ys xs).append_left _).trans ?_
      exact List.flatMap_append_perm ys (f x) fun y => xs.flatMap (f · y)

theorem eq_of_forall₂_le_of_sum_eq : ∀ {ms ns : List Nat}, List.Forall₂ (· ≤ ·) ms ns →
    ms.sum = ns.sum → ms = ns
  | [], [], _, _ => rfl
  | m :: ms, n :: ns, .cons hle hrest, hsum => by
      have hrest' := hrest.sum_le_sum
      rw [List.sum_cons, List.sum_cons] at hsum
      obtain rfl : m = n := by omega
      rw [eq_of_forall₂_le_of_sum_eq hrest (by omega)]

theorem sum_flatMap_le {α : Type} {f g : α → List Nat} : ∀ {xs : List α},
    (∀ x ∈ xs, List.Forall₂ (· ≤ ·) (f x) (g x)) → (xs.flatMap f).sum ≤ (xs.flatMap g).sum
  | [], _ => le_rfl
  | x :: xs, h => by
      have hx := (h x List.mem_cons_self).sum_le_sum
      have hxs := sum_flatMap_le fun z hz => h z (List.mem_cons_of_mem x hz)
      rw [List.flatMap_cons, List.flatMap_cons, List.sum_append, List.sum_append]
      omega

/-- Lists that are smaller member by member, but not in sum, are the same. -/
theorem eq_of_sum_flatMap_eq {α : Type} {f g : α → List Nat} : ∀ {xs : List α},
    (∀ x ∈ xs, List.Forall₂ (· ≤ ·) (f x) (g x)) → (xs.flatMap f).sum = (xs.flatMap g).sum →
      ∀ x ∈ xs, f x = g x
  | y :: xs, h, hsum, x, hx => by
      have hy := h y List.mem_cons_self
      have hxs : ∀ z ∈ xs, List.Forall₂ (· ≤ ·) (f z) (g z) :=
        fun z hz => h z (List.mem_cons_of_mem y hz)
      have hley := hy.sum_le_sum
      have hlexs := sum_flatMap_le hxs
      rw [List.flatMap_cons, List.flatMap_cons, List.sum_append, List.sum_append] at hsum
      rcases List.mem_cons.mp hx with rfl | hx
      · exact eq_of_forall₂_le_of_sum_eq hy (by omega)
      · exact eq_of_sum_flatMap_eq hxs (by omega) x hx

theorem forall₂_flatMap {α β : Type} {R : α → β → Prop} {f : α → List β} : ∀ {xs : List α},
    (∀ x ∈ xs, ∃ y, f x = [y] ∧ R x y) → List.Forall₂ R xs (xs.flatMap f)
  | [], _ => .nil
  | x :: xs, h => by
      obtain ⟨y, hy, hxy⟩ := h x List.mem_cons_self
      rw [List.flatMap_cons, hy]
      exact .cons hxy (forall₂_flatMap fun x' hx' => h x' (List.mem_cons_of_mem x hx'))

/-! ### Slots -/

namespace Block

variable {b : Block} {cursor t slot : Instant} {cs : List Instant} {es : List Entry} {e : Entry}

/-- The instants from which the entries of a block go on: each of its times on the seven dates. -/
def slots (b : Block) (cursor : Instant) : List Instant :=
  b.times.flatMap fun time =>
    ((cursor.datesAfter? time).getD []).map fun date => ⟨date, time, cursor.offset⟩

/-- The slots, moved to the dates that a function makes of theirs. -/
def moved (f : Date → List Date) (slots : List Instant) : List Instant :=
  slots.flatMap fun slot => (f slot.date).map fun date => { slot with date := date }

/-- The block, restricted to one entry. -/
def withEntry (b : Block) (e : Entry) : Block :=
  { b with days := some [e], days_ne := by simp }

/-- For every slot there is a result, and the slots are all there. -/
theorem candidates?_eq_some_iff_moved (hdays : b.days = some es) :
    b.candidates? cursor = some cs ↔
      (∀ time ∈ b.times, ∃ ds, cursor.datesAfter? time = some ds
        ∧ ∀ d ∈ ds, ∃ found, d.settle? b.weeks es = some found)
      ∧ cs = moved (fun d => (d.settle? b.weeks es).getD []) (b.slots cursor) := by
  rw [candidates?_eq_some_iff]
  have hdates (time : TimeOfDay) : (∃ dates, b.candidateDates? cursor time = some dates) ↔
      ∃ ds, cursor.datesAfter? time = some ds
        ∧ ∀ d ∈ ds, ∃ found, d.settle? b.weeks es = some found := by
    constructor
    · rintro ⟨dates, hdates⟩
      obtain ⟨ds, hds, hall, -⟩ := (candidateDates?_eq_some_iff hdays).mp hdates
      exact ⟨ds, hds, hall⟩
    · rintro ⟨ds, hds, hall⟩
      exact ⟨_, (candidateDates?_eq_some_iff hdays).mpr ⟨ds, hds, hall, rfl⟩⟩
  simp only [hdates]
  refine and_congr_right fun hall => ?_
  suffices heq : (b.times.flatMap fun time =>
      (b.datesFor cursor time).map fun date => (⟨date, time, cursor.offset⟩ : Instant))
      = moved (fun d => (d.settle? b.weeks es).getD []) (b.slots cursor) by rw [heq]
  rw [moved, slots, List.flatMap_assoc]
  apply List.flatMap_congr
  intro time htime
  obtain ⟨ds, hds, hfound⟩ := hall time htime
  have hdates := (candidateDates?_eq_some_iff hdays).mpr ⟨ds, hds, hfound, rfl⟩
  rw [datesFor, hdates, hds, Option.getD_some, Option.getD_some, List.map_flatMap, List.flatMap_map]

theorem mem_slots_iff (h : ∀ time ∈ b.times, ∃ ds, cursor.datesAfter? time = some ds) :
    slot ∈ b.slots cursor ↔ slot.time ∈ b.times ∧ slot.offset = cursor.offset
      ∧ ∃ ds, cursor.datesAfter? slot.time = some ds ∧ slot.date ∈ ds := by
  rw [slots, List.mem_flatMap]
  constructor
  · rintro ⟨time, htime, hslot⟩
    obtain ⟨ds, hds⟩ := h time htime
    rw [hds, Option.getD_some] at hslot
    obtain ⟨d, hd, rfl⟩ := List.mem_map.mp hslot
    exact ⟨htime, rfl, ds, hds, hd⟩
  · rintro ⟨htime, ho, ds, hds, hd⟩
    refine ⟨slot.time, htime, ?_⟩
    rw [hds, Option.getD_some]
    exact List.mem_map.mpr ⟨slot.date, hd, by rw [← ho]⟩

theorem exists_settle?_of_mem_slots (hall : ∀ time ∈ b.times, ∃ ds, cursor.datesAfter? time = some ds
      ∧ ∀ d ∈ ds, ∃ found, d.settle? b.weeks es = some found) (hslot : slot ∈ b.slots cursor) :
    ∃ found, slot.date.settle? b.weeks es = some found := by
  obtain ⟨htime, -, ds, hds, hd⟩ :=
    (mem_slots_iff fun time htime => (hall time htime).imp fun ds hds => hds.1).mp hslot
  obtain ⟨ds', hds', hfound⟩ := hall slot.time htime
  obtain rfl : ds = ds' := Option.some.inj (hds.symm.trans hds')
  exact hfound slot.date hd

/-! ### The candidates of one entry -/

/-- The candidates of the block restricted to one entry. -/
def ownCandidates (b : Block) (cursor : Instant) (e : Entry) : List Instant :=
  moved (fun d => (d.settle? b.weeks [e]).getD []) (b.slots cursor)

/-- Where the entries together have candidates, each of them has candidates alone. -/
theorem candidates?_withEntry (hdays : b.days = some es) (h : b.candidates? cursor = some cs)
    (he : e ∈ es) : (b.withEntry e).candidates? cursor = some (b.ownCandidates cursor e) := by
  refine (candidates?_eq_some_iff_moved (b := b.withEntry e) rfl).mpr ⟨?_, rfl⟩
  intro time htime
  obtain ⟨ds, hds, hfound⟩ := ((candidates?_eq_some_iff_moved hdays).mp h).1 time htime
  refine ⟨ds, hds, ?_⟩
  intro d hd
  obtain ⟨found, hfound⟩ := hfound d hd
  by_cases hw : e.weekday = d.weekday
  · obtain ⟨x, hx⟩ := Date.exists_isFirstFrom_of_settle? hfound le_rfl rfl e he hw
    exact ⟨[x], Date.settle?_singleton hw hx⟩
  · exact ⟨[], Date.settle?_cons_of_ne hw⟩

/-- Of the seven dates, an entry moves the one of its weekday only. -/
theorem flatMap_settle?_singleton {parity : Option Parity} {ds : List Date} {d x : Date}
    (hds : ds.Pairwise fun d f => d.weekday ≠ f.weekday) (hd : d ∈ ds)
    (hw : e.weekday = d.weekday) (hx : (e.rule parity).IsFirstFrom d x) :
    (ds.flatMap fun d => (d.settle? parity [e]).getD []) = [x] := by
  have hother {fs : List Date} (hfs : ∀ f ∈ fs, d.weekday ≠ f.weekday) :
      (fs.flatMap fun f => (f.settle? parity [e]).getD []) = [] := by
    rw [List.flatMap_eq_nil_iff]
    intro f hf
    rw [Date.settle?_cons_of_ne fun heq => hfs f hf (hw.symm.trans heq)]
    rfl
  obtain ⟨before, after, rfl⟩ := List.append_of_mem hd
  obtain ⟨-, hafter, hbefore⟩ := List.pairwise_append.mp hds
  rw [List.flatMap_append, List.flatMap_cons, Date.settle?_singleton hw hx,
    hother fun f hf heq => hbefore f hf d List.mem_cons_self heq.symm,
    hother (List.pairwise_cons.mp hafter).1]
  rfl

/-- Alone, an entry has one candidate for each time of day, the first instant that satisfies it. -/
theorem forall₂_isNext_ownCandidates (hdays : b.days = some es) (h : b.candidates? cursor = some cs)
    (he : e ∈ es) :
    List.Forall₂ (e.IsNext b.weeks cursor) b.times (b.ownCandidates cursor e) := by
  rw [ownCandidates, moved, slots, List.flatMap_assoc]
  apply forall₂_flatMap
  intro time htime
  obtain ⟨ds, hds, hfound⟩ := ((candidates?_eq_some_iff_moved hdays).mp h).1 time htime
  obtain ⟨d, hd, hw⟩ := Instant.exists_mem_datesAfter? hds e.weekday
  obtain ⟨found, hfound⟩ := hfound d hd
  obtain ⟨x, hx⟩ := Date.exists_isFirstFrom_of_settle? hfound le_rfl rfl e he hw.symm
  refine ⟨⟨x, time, cursor.offset⟩, ?_, ?_⟩
  · have hone := flatMap_settle?_singleton (Instant.pairwise_datesAfter? hds) hd hw.symm hx
    rw [hds, Option.getD_some, List.flatMap_map]
    change (ds.flatMap fun d => ((d.settle? b.weeks [e]).getD []).map fun date =>
      (⟨date, time, cursor.offset⟩ : Instant)) = _
    rw [← List.map_flatMap, hone]
    rfl
  · exact (isNext_iff_isFirstFrom hds hd hw.symm).mpr ⟨rfl, rfl, hx⟩

/-! ### All entries together -/

/-- The candidates that the entries have alone are the slots, moved to their own dates. -/
theorem flatten_ownCandidates_perm :
    (es.map (b.ownCandidates cursor)).flatten.Perm
      (moved (Date.ownDates b.weeks es) (b.slots cursor)) := by
  rw [← List.flatMap_def]
  refine (flatMap_flatMap_perm _ _ _).trans (.of_eq ?_)
  rw [moved]
  apply List.flatMap_congr
  intro slot hslot
  rw [Date.ownDates, List.map_flatMap]

theorem map_date_moved (f : Date → List Date) (slots : List Instant) :
    (moved f slots).map Instant.date = slots.flatMap fun slot => f slot.date := by
  simp [moved, List.map_flatMap, Function.comp_def]

/-- The entries of each weekday stand in order when every slot is moved to their own dates. -/
theorem inOrder_iff_forall_slots (hdays : b.days = some es)
    (hall : ∀ time ∈ b.times, ∃ ds, cursor.datesAfter? time = some ds
      ∧ ∀ d ∈ ds, ∃ found, d.settle? b.weeks es = some found) :
    b.InOrder cursor ↔ ∀ slot ∈ b.slots cursor,
      (slot.date.settle? b.weeks es).getD [] = slot.date.ownDates b.weeks es := by
  have hslots : ∀ time ∈ b.times, ∃ ds, cursor.datesAfter? time = some ds :=
    fun time htime => (hall time htime).imp fun ds hds => hds.1
  constructor
  · intro hordered slot hslot
    obtain ⟨htime, -, ds, hds, hd⟩ := (mem_slots_iff hslots).mp hslot
    obtain ⟨found, hfound⟩ := exists_settle?_of_mem_slots hall hslot
    rw [hfound]
    exact (settle?_eq_ownDates_iff_pairwise hfound).mpr
      ((pairwise_ownDates_iff hds).mpr (hordered es hdays slot.time htime) slot.date hd)
  · intro hequal es' hes' time htime
    obtain rfl : es = es' := Option.some.inj (hdays.symm.trans hes')
    obtain ⟨ds, hds⟩ := hslots time htime
    refine (pairwise_ownDates_iff hds).mp fun d hd => ?_
    have hslot : (⟨d, time, cursor.offset⟩ : Instant) ∈ b.slots cursor :=
      (mem_slots_iff hslots).mpr ⟨htime, rfl, ds, hds, hd⟩
    obtain ⟨found, hfound⟩ := exists_settle?_of_mem_slots hall hslot
    have hslot := hequal _ hslot
    rw [hfound] at hslot
    exact (settle?_eq_ownDates_iff_pairwise hfound).mp hslot

/-- The entries together have the candidates that they have alone, each as often, exactly when the
entries of each weekday stand in the order of their next instants. -/
theorem perm_ownCandidates_iff (hdays : b.days = some es) (h : b.candidates? cursor = some cs) :
    cs.Perm (es.map (b.ownCandidates cursor)).flatten ↔ b.InOrder cursor := by
  obtain ⟨hall, rfl⟩ := (candidates?_eq_some_iff_moved hdays).mp h
  rw [inOrder_iff_forall_slots hdays hall]
  constructor
  · intro hperm
    -- the own dates are not later, so that in sum they are the same only if each of them is
    have hdates := (hperm.trans flatten_ownCandidates_perm).map Instant.date
    rw [map_date_moved, map_date_moved] at hdates
    have hsum := (hdates.map Date.number).sum_eq
    rw [List.map_flatMap, List.map_flatMap] at hsum
    have hle : ∀ slot ∈ b.slots cursor, List.Forall₂ (· ≤ ·)
        ((slot.date.ownDates b.weeks es).map Date.number)
        (((slot.date.settle? b.weeks es).getD []).map Date.number) := by
      intro slot hslot
      obtain ⟨found, hfound⟩ := exists_settle?_of_mem_slots hall hslot
      rw [hfound, Option.getD_some, List.forall₂_map_left_iff, List.forall₂_map_right_iff]
      exact Date.forall₂_ownDates hfound le_rfl rfl
    intro slot hslot
    have hnumbers := eq_of_sum_flatMap_eq hle hsum.symm slot hslot
    exact (List.map_injective_iff.mpr (fun d f => Date.number_inj.mp) hnumbers).symm
  · intro hequal
    refine .trans (.of_eq ?_) flatten_ownCandidates_perm.symm
    apply List.flatMap_congr
    intro slot hslot
    exact congrArg (List.map _) (hequal slot hslot)

/-- In general the entries of a block depend on each other.  Alone, each of them has for every time of
day the first instant after the cursor that satisfies it; together they have these candidates, each as
often, exactly when the entries of each weekday stand in their order, and then the earliest of them is
the first instant after the cursor that the block covers. -/
theorem candidates?_withEntry_sum (hdays : b.days = some es) (h : b.candidates? cursor = some cs) :
    ∃ parts, (es.mapM fun e => (b.withEntry e).candidates? cursor) = some parts
      ∧ List.Forall₂ (fun e part => List.Forall₂ (e.IsNext b.weeks cursor) b.times part) es parts
      ∧ (cs.Perm parts.flatten ↔ b.InOrder cursor)
      ∧ (b.InOrder cursor → ∀ t, earliest? cs = some t →
          IsLeast {u | cursor < u ∧ u.offset = cursor.offset ∧ b.Covers u} t) := by
  refine ⟨es.map (b.ownCandidates cursor), ?_, ?_, perm_ownCandidates_iff hdays h,
    fun hordered t => isLeast_earliest? h hordered⟩
  · rw [mapM_eq_some_iff, List.map_map]
    exact List.map_congr_left fun e he => candidates?_withEntry hdays h he
  · rw [List.forall₂_map_right_iff, List.forall₂_same]
    exact fun e he => forall₂_isNext_ownCandidates hdays h he

/-- At 6 PM on the first Monday and on Mondays. -/
def firstMondayAndMondays : Block :=
  ⟨[.onTheHour 18], some [⟨.monday, some .first⟩, ⟨.monday, none⟩], none, by decide, by decide⟩

/-- The 9th of June 2021, one in the afternoon. -/
def juneNinth : Instant :=
  ⟨⟨737950, by decide, by decide⟩, .onTheHour 13, .utc⟩

theorem withEntry_sum_firstMondayAndMondays :
    ∃ cs parts, firstMondayAndMondays.candidates? juneNinth = some cs
      ∧ ([⟨.monday, some .first⟩, ⟨.monday, none⟩].mapM fun e =>
        (firstMondayAndMondays.withEntry e).candidates? juneNinth) = some parts
      ∧ (cs.Perm parts.flatten ↔ firstMondayAndMondays.InOrder juneNinth) := by
  obtain ⟨cs, hcs⟩ : ∃ cs, firstMondayAndMondays.candidates? juneNinth = some cs := ⟨_, by cbv⟩
  obtain ⟨parts, hparts, -, hperm, -⟩ := candidates?_withEntry_sum rfl hcs
  exact ⟨cs, parts, hcs, hparts, hperm⟩

/-- Mondays, named after the first Monday, lose the 14th of June: the 5th of July comes twice. -/
theorem candidates?_firstMondayAndMondays :
    firstMondayAndMondays.candidates? juneNinth
        = some [⟨⟨737976, by decide, by decide⟩, .onTheHour 18, .utc⟩,
          ⟨⟨737976, by decide, by decide⟩, .onTheHour 18, .utc⟩]
      ∧ ([⟨.monday, some .first⟩, ⟨.monday, none⟩].mapM fun e =>
        (firstMondayAndMondays.withEntry e).candidates? juneNinth)
        = some [[⟨⟨737976, by decide, by decide⟩, .onTheHour 18, .utc⟩],
          [⟨⟨737955, by decide, by decide⟩, .onTheHour 18, .utc⟩]]
      ∧ ¬ List.Perm [(⟨⟨737976, by decide, by decide⟩, .onTheHour 18, .utc⟩ : Instant),
          ⟨⟨737976, by decide, by decide⟩, .onTheHour 18, .utc⟩]
        [⟨⟨737976, by decide, by decide⟩, .onTheHour 18, .utc⟩,
          ⟨⟨737955, by decide, by decide⟩, .onTheHour 18, .utc⟩] := by
  refine ⟨by cbv, by cbv, by decide⟩

end Block

end Timetable
