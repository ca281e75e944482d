import Timetable.Memory.Perform
import Timetable.Proofs.Occurrence.Stepping

/-! # What objects share and what they copy

A merged schedule is made with a list of its own, whichever list it is given (`MemoryAction.merge_run`), and so
is an iterator (`MemoryAction.beginIterator_run`); the copy of an iterator is another one by the same list
(`MemoryAction.copyIterator_run`).  An addition in place changes one list and no object
(`MemoryAction.extend_run`).  Nothing but a schedule itself goes by its list (`Memory.Sound`), and whatever is
made or added to, this stays so. -/

namespace Timetable

namespace Memory

/-- The memory with one more list. -/
def withList (m : Memory) (blocks : List Block) : Memory :=
  { m with lists := m.lists ++ [blocks] }

/-- The memory with one more schedule. -/
def withSchedule (m : Memory) (o : ScheduleObject) : Memory :=
  { m with schedules := m.schedules ++ [o] }

/-- The memory with one more iterator. -/
def withIterator (m : Memory) (o : IteratorObject) : Memory :=
  { m with iterators := m.iterators ++ [o] }

/-- The memory with more blocks in a list. -/
def withMore (m : Memory) (l : ListId) (more : List Block) : Memory :=
  { m with lists := m.lists.modify l (· ++ more) }

/-- A holding of a plan that shares no list, and the memory in which it has been made. -/
def own (m : Memory) : Plan → Holding × Memory
  | .single b => (.block b, m)
  | .merged blocks _ => (.list m.lists.length, m.withList blocks)

variable {m : Memory} {given held : Holding} {p q : Plan} {l : ListId} {bs : List Block}

/-! ### Plans -/

theorem plan?_block_eq_some_iff {b : Block} : m.plan? (.block b) = some p ↔ p = .single b := by
  rw [plan?, Option.some_inj, eq_comm]

theorem plan?_list_eq_some_iff :
    m.plan? (.list l) = some p ↔ m.lists[l]? = some p.blocks ∧ p.isMerged = true := by
  rw [plan?, Option.bind_eq_some_iff]
  constructor
  · rintro ⟨bs, hbs, hp⟩
    rw [Plan.ofBlocks?] at hp
    split at hp
    · cases hp
    · obtain rfl := Option.some.inj hp
      exact ⟨hbs, rfl⟩
  · rintro ⟨hbs, hmerged⟩
    cases p with
    | single b => cases hmerged
    | merged blocks hne => exact ⟨blocks, hbs, dif_neg hne⟩

theorem lt_length_of_plan? (h : m.plan? (.list l) = some p) : l < m.lists.length :=
  (List.getElem?_eq_some_iff.mp (plan?_list_eq_some_iff.mp h).1).1

theorem plan?_withList (h : m.plan? held = some p) : (m.withList bs).plan? held = some p := by
  cases held with
  | block b => exact h
  | list l =>
      rw [plan?_list_eq_some_iff] at h ⊢
      refine ⟨?_, h.2⟩
      rw [withList, List.getElem?_append_left (List.getElem?_eq_some_iff.mp h.1).1, h.1]

theorem plan?_own (m : Memory) (p : Plan) : (m.own p).2.plan? (m.own p).1 = some p := by
  cases p with
  | single b => rfl
  | merged blocks hne =>
      refine plan?_list_eq_some_iff.mpr ⟨?_, rfl⟩
      exact List.getElem?_concat_length

theorem schedules_own (m : Memory) (p : Plan) : (m.own p).2.schedules = m.schedules := by
  cases p <;> rfl

theorem iterators_own (m : Memory) (p : Plan) : (m.own p).2.iterators = m.iterators := by
  cases p <;> rfl

theorem plan?_withMore_of_ne (h : held ≠ .list l) : (m.withMore l bs).plan? held = m.plan? held := by
  cases held with
  | block b => rfl
  | list l' =>
      have hne : l ≠ l' := fun heq => h (heq ▸ rfl)
      rw [plan?, plan?, withMore, List.getElem?_modify_ne _ _ hne]

theorem plan?_withMore_self (h : m.plan? (.list l) = some p) :
    (m.withMore l q.blocks).plan? (.list l) = some (p.append q) := by
  rw [plan?_list_eq_some_iff] at h ⊢
  refine ⟨?_, rfl⟩
  rw [withMore, List.getElem?_modify_eq, h.1]
  rfl

/-! ### Who goes by which list -/

/-- By what an object goes. -/
def holding? (m : Memory) : Reference → Option Holding
  | .schedule i => m.schedules[i]?.map (·.blocks)
  | .iterator i => m.iterators[i]?.map (·.blocks)
  | .clock _ => none

theorem holding?_schedule {i : ScheduleId} {o : ScheduleObject} (ho : m.schedules[i]? = some o) :
    m.holding? (.schedule i) = some o.blocks := by
  rw [holding?, ho]
  rfl

theorem holding?_iterator {i : IteratorId} {o : IteratorObject} (ho : m.iterators[i]? = some o) :
    m.holding? (.iterator i) = some o.blocks := by
  rw [holding?, ho]
  rfl

/-- Every object has its blocks, and nothing else goes by the list of a schedule. -/
structure Sound (m : Memory) : Prop where
  plans : ∀ r held, m.holding? r = some held → ∃ p, m.plan? held = some p
  own : ∀ i r l, m.holding? (.schedule i) = some (.list l) → m.holding? r = some (.list l) →
    r = .schedule i

theorem holding?_withSchedule (o : ScheduleObject) (r : Reference) :
    (m.withSchedule o).holding? r
      = if r = .schedule m.schedules.length then some o.blocks else m.holding? r := by
  cases r with
  | schedule i =>
      simp only [holding?, withSchedule, Reference.schedule.injEq, List.getElem?_append]
      grind
  | iterator i => rfl
  | clock i => rfl

theorem holding?_withIterator (o : IteratorObject) (r : Reference) :
    (m.withIterator o).holding? r
      = if r = .iterator m.iterators.length then some o.blocks else m.holding? r := by
  cases r with
  | iterator i =>
      simp only [holding?, withIterator, Reference.iterator.injEq, List.getElem?_append]
      grind
  | schedule i => rfl
  | clock i => rfl

namespace Sound

theorem ofHost (host : Host) (vars : Variables) : (Memory.ofHost host vars).Sound where
  plans r held h := by
    cases r <;> simp [holding?, Memory.ofHost] at h
  own i r l h _ := by
    simp [holding?, Memory.ofHost] at h

/-- A list that is made now is referred to by no object yet. -/
theorem holding?_ne_new (h : m.Sound) (r : Reference) : m.holding? r ≠ some (.list m.lists.length) := by
  intro hr
  obtain ⟨p, hp⟩ := h.plans r _ hr
  exact absurd (lt_length_of_plan? hp) (Nat.lt_irrefl _)

/-- Nothing goes by a list that a plan has to itself. -/
theorem holding?_own (h : m.Sound) (p : Plan) (hl : (m.own p).1 = .list l) (r : Reference) :
    (m.own p).2.holding? r ≠ some (.list l) := by
  cases p with
  | single b => cases hl
  | merged blocks hne =>
      obtain rfl := Holding.list.inj hl
      exact h.holding?_ne_new r

theorem withList (h : m.Sound) (blocks : List Block) : (m.withList blocks).Sound where
  plans r held hr := (h.plans r held hr).imp fun _ => plan?_withList
  own := h.own

theorem withSchedule {o : ScheduleObject} (h : m.Sound) (hplan : m.plan? o.blocks = some p)
    (hown : ∀ l, o.blocks = .list l → ∀ r, m.holding? r ≠ some (.list l)) :
    (m.withSchedule o).Sound where
  plans r held hr := by
    rw [holding?_withSchedule] at hr
    split at hr
    · obtain rfl := Option.some.inj hr
      exact ⟨p, hplan⟩
    · exact h.plans r held hr
  own i r l hi hr := by
    rw [holding?_withSchedule] at hi hr
    split at hi <;> split at hr
    · simp_all
    · exact absurd hr (hown l (Option.some.inj hi) r)
    · exact absurd hi (hown l (Option.some.inj hr) _)
    · exact h.own i r l hi hr

theorem withIterator {o : IteratorObject} (h : m.Sound) (hplan : m.plan? o.blocks = some p)
    (hapart : ∀ l, o.blocks = .list l → ∀ i, m.holding? (.schedule i) ≠ some (.list l)) :
    (m.withIterator o).Sound where
  plans r held hr := by
    rw [holding?_withIterator] at hr
    split at hr
    · obtain rfl := Option.some.inj hr
      exact ⟨p, hplan⟩
    · exact h.plans r held hr
  own i r l hi hr := by
    rw [holding?_withIterator] at hi hr
    rw [if_neg (by simp)] at hi
    split at hr
    · exact absurd hi (hapart l (Option.some.inj hr) i)
    · exact h.own i r l hi hr

theorem withMore (h : m.Sound) (l : ListId) (q : Plan) : (m.withMore l q.blocks).Sound where
  plans r held hr := by
    obtain ⟨p, hp⟩ := h.plans r held hr
    by_cases hl : held = .list l
    · subst hl
      exact ⟨p.append q, plan?_withMore_self hp⟩
    · exact ⟨p, (plan?_withMore_of_ne hl).trans hp⟩
  own := h.own

/-- A move leaves every iterator with its blocks. -/
theorem modify_iterators {f : IteratorObject → IteratorObject} (h : m.Sound) (id : IteratorId)
    (hf : ∀ o, (f o).blocks = o.blocks) : { m with iterators := m.iterators.modify id f }.Sound := by
  have hholding : ∀ r, { m with iterators := m.iterators.modify id f }.holding? r = m.holding? r := by
    intro r
    cases r with
    | iterator i =>
        simp only [holding?, List.getElem?_modify, Option.map_eq_map, Option.map_map]
        congr 1
        funext o
        by_cases hi : id = i <;> simp [hi, hf]
    | schedule i => rfl
    | clock i => rfl
  refine ⟨fun r held hr => ?_, fun i r l hi hr => ?_⟩
  · rw [hholding] at hr
    exact h.plans r held hr
  · rw [hholding] at hi hr
    exact h.own i r l hi hr

end Sound

end Memory

/-! ### The places where something is copied -/

namespace MemoryAction

open Timetable.Action Memory

variable {m : Memory} {given : Holding} {p q : Plan} {l : ListId} {bs : List Block}

theorem list_run (h : m.lists[l]? = some bs) : (list l).run m = (.ok bs, m) := by
  change (orUnsuitable m.lists[l]?, m) = _
  rw [h]
  rfl

theorem blocksOf_run (h : m.plan? given = some p) : (blocksOf given).run m = (.ok p.blocks, m) := by
  cases given with
  | block b =>
      obtain rfl := plan?_block_eq_some_iff.mp h
      rfl
  | list l => exact list_run (plan?_list_eq_some_iff.mp h).1

theorem copyList_run (h : m.lists[l]? = some bs) :
    (copyList l).run m = (.ok m.lists.length, m.withList bs) := by
  rw [copyList, run_bind_of_ok (list_run h)]
  rfl

theorem copyHolding_run (h : m.plan? given = some p) :
    (copyHolding given).run m = (.ok (m.own p).1, (m.own p).2) := by
  cases given with
  | block b =>
      obtain rfl := plan?_block_eq_some_iff.mp h
      rfl
  | list l =>
      obtain ⟨hlist, hmerged⟩ := plan?_list_eq_some_iff.mp h
      cases p with
      | single b => cases hmerged
      | merged blocks hne =>
          rw [copyHolding, run_bind_of_ok (copyList_run hlist)]
          rfl

/-- A merged schedule goes by a list of its own, not by the one it is given. -/
theorem merge_run (base : Moment) (h : m.plan? (.list l) = some p) :
    (merge base l).run m
      = (.ok m.schedules.length, (m.own p).2.withSchedule ⟨base, (m.own p).1⟩) := by
  obtain ⟨hlist, hmerged⟩ := plan?_list_eq_some_iff.mp h
  cases p with
  | single b => cases hmerged
  | merged blocks hne =>
      have hempty : ¬blocks.isEmpty = true := by simpa using hne
      rw [merge, run_bind_of_ok (list_run hlist), Plan.blocks, if_neg hempty,
        run_bind_of_ok (copyList_run hlist)]
      rfl

theorem merge_run_of_nil (base : Moment) (h : m.lists[l]? = some []) :
    (merge base l).run m = (.error .nothingToSchedule, m) := by
  rw [merge, run_bind_of_ok (list_run h)]
  rfl

/-- An iterator goes by a list of its own, not by the one it is given. -/
theorem beginIterator_run {start : Moment} {current : Instant} (skip : Bool) (offset : Option Offset)
    (clock : ClockId) (h : m.plan? given = some p) (hstart : start.aware .start = .ok current) :
    (beginIterator given start skip offset clock).run m
      = (.ok m.iterators.length,
        (m.own p).2.withIterator ⟨(m.own p).1, current, skip, offset, false, clock⟩) := by
  have hempty : ¬p.blocks.isEmpty = true := by simpa using p.blocks_ne
  have hnow : ExceptT.run (liftM (start.aware .start) : MemoryAction Instant) m = (.ok current, m) := by
    rw [run_lift, hstart]
  rw [beginIterator, run_bind_of_ok (blocksOf_run h), if_neg hempty, run_bind_of_ok hnow,
    run_bind_of_ok (copyHolding_run h), ← m.iterators_own p]
  rfl

theorem beginIterator_run_of_error {start : Moment} {error : Error} (skip : Bool)
    (offset : Option Offset) (clock : ClockId) (h : m.plan? given = some p)
    (hstart : start.aware .start = .error error) :
    (beginIterator given start skip offset clock).run m = (.error error, m) := by
  have hempty : ¬p.blocks.isEmpty = true := by simpa using p.blocks_ne
  rw [beginIterator, run_bind_of_ok (blocksOf_run h), if_neg hempty, run_bind, run_lift, hstart]

theorem beginIterator_run_of_nil (start : Moment) (skip : Bool) (offset : Option Offset) (clock : ClockId)
    (h : m.lists[l]? = some []) :
    (beginIterator (.list l) start skip offset clock).run m = (.error .nothingToIterate, m) := by
  rw [beginIterator, blocksOf, run_bind_of_ok (list_run h)]
  rfl

theorem iteratorObject_run {id : IteratorId} {o : IteratorObject} (h : m.iterators[id]? = some o) :
    (iteratorObject id).run m = (.ok o, m) := by
  change (orUnsuitable m.iterators[id]?, m) = _
  rw [h]
  rfl

/-- The copy of an iterator is another one, and goes by the same list and the same clock. -/
theorem copyIterator_run {id : IteratorId} {o : IteratorObject} (change : IteratorObject → IteratorObject)
    (h : m.iterators[id]? = some o) :
    (copyIterator id change).run m = (.ok m.iterators.length, m.withIterator (change o)) := by
  have hchange : (m.iterators ++ [o]).modify m.iterators.length change = m.iterators ++ [change o] :=
    List.modifyTailIdx_add _ 0 m.iterators [o]
  rw [copyIterator, run_bind_of_ok (iteratorObject_run h), withIterator, ← hchange]
  rfl

theorem scheduleObject_run {id : ScheduleId} {o : ScheduleObject} (h : m.schedules[id]? = some o) :
    (scheduleObject id).run m = (.ok o, m) := by
  change (orUnsuitable m.schedules[id]?, m) = _
  rw [h]
  rfl

/-- An addition in place changes the list of the first schedule, and nothing else. -/
theorem extend_run {i j : ScheduleId} {a b : ScheduleObject} (ha : m.schedules[i]? = some a)
    (hl : a.blocks = .list l) (hb : m.schedules[j]? = some b) (hplan : m.plan? b.blocks = some q) :
    (extend i j).run m = (.ok i, m.withMore l q.blocks) := by
  rw [extend, run_bind_of_ok (scheduleObject_run ha), hl]
  simp only []
  rw [run_bind_of_ok (scheduleObject_run hb), run_bind_of_ok (blocksOf_run hplan)]
  rfl

end MemoryAction

end Timetable
