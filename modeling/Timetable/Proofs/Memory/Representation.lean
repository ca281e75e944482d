import Timetable.Proofs.Memory.Sharing
import Timetable.Proofs.Session.Sums

/-! # Objects as values

Objects in a memory represent the values of a session: an iterator object the iterator that it is over its
blocks, a schedule object the schedule of its blocks (`Represents`).  No two names stand for one object.  What
is done to objects is done to the values in step: clocks and surroundings change together, what is new
represents what is new (`Represents.withSchedule`, `Represents.withIterator`), an addition in place changes one
schedule (`Represents.withMore`), and a move changes one iterator (`Represents.moved`). -/

namespace Timetable

/-- The value that an object is. -/
inductive Memory.Shows (m : Memory) : Reference → Value → Prop where
  | iterator {id : IteratorId} {o : IteratorObject} {p : Plan} (ho : m.iterators[id]? = some o)
      (hplan : m.plan? o.blocks = some p) : Shows m (.iterator id) (.iterator (o.withPlan p) o.clock)
  | schedule {id : ScheduleId} (h : id < m.schedules.length) : Shows m (.schedule id) (.schedule id)
  | clock {id : ClockId} (h : id < m.clocks.length) : Shows m (.clock id) (.clock id)

/-- The schedule that an object is. -/
def Memory.ShowsSchedule (m : Memory) (o : ScheduleObject) (a : Schedule) : Prop :=
  o.base = a.base ∧ m.plan? o.blocks = some a.plan

/-- Objects and their names are the values of a session and theirs. -/
structure Represents (names : Names) (values : Values) (m : Memory) (w : World) : Prop where
  sound : m.Sound
  clocks : w.clocks = m.clocks
  surroundings : w.surroundings = m.surroundings
  count : m.schedules.length = w.schedules.length
  schedules : ∀ (i : ScheduleId) o a, m.schedules[i]? = some o → w.schedules[i]? = some a →
    m.ShowsSchedule o a
  bound : ∀ name, (names name).isSome = (values.get? name).isSome
  named : ∀ name r value, names name = some r → values.get? name = some value → m.Shows r value
  distinct : ∀ name other r, names name = some r → names other = some r → name = other

namespace Memory

variable {m m' : Memory} {r : Reference} {value : Value} {o : ScheduleObject} {a : Schedule} {p : Plan}

/-- Objects that are there are still there, and the iterators are as they were. -/
structure Keeps (m m' : Memory) : Prop where
  clocks : m.clocks.length ≤ m'.clocks.length
  schedules : m.schedules.length ≤ m'.schedules.length
  iterators : ∀ (id : IteratorId) (o : IteratorObject) (p : Plan), m.iterators[id]? = some o →
    m.plan? o.blocks = some p → m'.iterators[id]? = some o ∧ m'.plan? o.blocks = some p

theorem Shows.of_keeps (h : m.Shows r value) (hkeeps : m.Keeps m') : m'.Shows r value := by
  cases h with
  | iterator ho hplan =>
      obtain ⟨ho', hplan'⟩ := hkeeps.iterators _ _ _ ho hplan
      exact .iterator ho' hplan'
  | schedule h => exact .schedule (h.trans_le hkeeps.schedules)
  | clock h => exact .clock (h.trans_le hkeeps.clocks)

theorem iterator?_eq_some {id : IteratorId} {o : IteratorObject} (ho : m.iterators[id]? = some o)
    (hplan : m.plan? o.blocks = some p) : m.iterator? id = some (o.withPlan p) := by
  simp [iterator?, ho, hplan]

/-- Is there an object of this number? -/
def IsThere (m : Memory) : Reference → Prop
  | .iterator id => id < m.iterators.length
  | .schedule id => id < m.schedules.length
  | .clock id => id < m.clocks.length

theorem Shows.isThere (h : m.Shows r value) : m.IsThere r := by
  cases h with
  | iterator ho hplan => exact (List.getElem?_eq_some_iff.mp ho).1
  | schedule h => exact h
  | clock h => exact h

theorem Shows.asClock_eq (h : m.Shows r value) : r.asClock = value.asClock := by
  cases h <;> rfl

theorem Shows.asSchedule_eq (h : m.Shows r value) : r.asSchedule = value.asSchedule := by
  cases h <;> rfl

theorem keeps_withList (m : Memory) (blocks : List Block) : m.Keeps (m.withList blocks) where
  clocks := le_rfl
  schedules := le_rfl
  iterators _ _ _ ho hplan := ⟨ho, plan?_withList hplan⟩

theorem keeps_withSchedule (m : Memory) (o : ScheduleObject) : m.Keeps (m.withSchedule o) where
  clocks := le_rfl
  schedules := by simp [withSchedule]
  iterators _ _ _ ho hplan := ⟨ho, hplan⟩

theorem keeps_withIterator (m : Memory) (o : IteratorObject) : m.Keeps (m.withIterator o) where
  clocks := le_rfl
  schedules := le_rfl
  iterators _ _ _ ho hplan :=
    ⟨by rw [withIterator, List.getElem?_append_left (List.getElem?_eq_some_iff.mp ho).1, ho], hplan⟩

/-- An iterator never goes by the list of a schedule, so it does not see what is added there. -/
theorem Sound.keeps_withMore {i : ScheduleId} {l : ListId} (h : m.Sound)
    (hi : m.holding? (.schedule i) = some (.list l)) (more : List Block) :
    m.Keeps (m.withMore l more) where
  clocks := le_rfl
  schedules := le_rfl
  iterators id o p ho hplan := by
    refine ⟨ho, ?_⟩
    rw [plan?_withMore_of_ne, hplan]
    intro hl
    cases h.own i _ l hi (hl ▸ holding?_iterator ho)

end Memory

namespace Represents

open Memory

variable {names : Names} {values : Values} {m : Memory} {w : World} {name : String} {r : Reference}
  {value : Value} {i : ScheduleId} {o : ScheduleObject} {a b : Schedule} {l : ListId}

theorem ofHost (host : Host) (vars : Variables) :
    Represents (Workspace.ofHost host vars).names (Session.ofHost host vars).values
      (Memory.ofHost host vars) (World.ofHost host vars) where
  sound := .ofHost host vars
  clocks := rfl
  surroundings := rfl
  count := rfl
  schedules _ _ _ h := by cases h
  bound _ := rfl
  named _ _ _ h := by cases h
  distinct _ _ _ h := by cases h

/-! ### What is represented -/

theorem exists_value (h : Represents names values m w) (hr : names name = some r) :
    ∃ value, values.get? name = some value ∧ m.Shows r value := by
  have hbound := h.bound name
  rw [hr, Option.isSome_some, eq_comm, Option.isSome_iff_exists] at hbound
  obtain ⟨value, hvalue⟩ := hbound
  exact ⟨value, hvalue, h.named name r value hr hvalue⟩

theorem exists_schedule (h : Represents names values m w) (hi : i < m.schedules.length) :
    ∃ o a, m.schedules[i]? = some o ∧ w.schedules[i]? = some a ∧ m.ShowsSchedule o a := by
  have ho := List.getElem?_eq_getElem hi
  have ha := List.getElem?_eq_getElem (h.count ▸ hi)
  exact ⟨_, _, ho, ha, h.schedules i _ _ ho ha⟩

theorem schedule?_eq (h : Represents names values m w) (i : ScheduleId) :
    m.schedule? i = w.schedules[i]? := by
  by_cases hi : i < m.schedules.length
  · obtain ⟨o, a, ho, ha, hbase, hplan⟩ := h.exists_schedule hi
    simp [Memory.schedule?, ho, ha, hplan, hbase]
  · have hi' : w.schedules.length ≤ i := h.count ▸ Nat.le_of_not_lt hi
    simp [Memory.schedule?, List.getElem?_eq_none (Nat.le_of_not_lt hi), List.getElem?_eq_none hi']

theorem orUnsuitable_schedule? (h : Represents names values m w) (i : ScheduleId) :
    orUnsuitable (m.schedule? i) = w.schedule i := by
  rw [h.schedule?_eq, World.schedule]
  cases w.schedules[i]? <;> rfl

/-- What can be seen of an object can be seen of the value. -/
theorem view_eq (h : Represents names values m w) (hshows : m.Shows r value) : r.view m = value.view w := by
  cases hshows with
  | iterator ho hplan => rw [Reference.view, iterator?_eq_some ho hplan]; rfl
  | schedule hlt => rw [Reference.view, h.orUnsuitable_schedule?]; rfl
  | clock hlt => rw [Reference.view, Memory.clock, ← h.clocks]; rfl

theorem firstUnbound?_eq (h : Represents names values m w) (mentions : List String) :
    names.firstUnbound? mentions = values.firstUnbound? mentions := by
  rw [Names.firstUnbound?, Values.firstUnbound?]
  congr 1
  funext name
  rw [← Option.not_isSome, ← Option.not_isSome, h.bound]

theorem get_eq_error (h : Represents names values m w) (hname : names name = none) :
    names.get name = .error (.unbound name) ∧ values.get name = .error (.unbound name) := by
  have hvalue : values.get? name = none := by
    rw [← Option.not_isSome_iff_eq_none, ← h.bound, hname]
    simp
  rw [Names.get, Values.get, hname, hvalue]
  exact ⟨rfl, rfl⟩

theorem get_eq_ok (h : Represents names values m w) (hr : names name = some r) :
    ∃ value, values.get? name = some value ∧ m.Shows r value ∧ names.get name = .ok r
      ∧ values.get name = .ok value := by
  obtain ⟨value, hvalue, hshows⟩ := h.exists_value hr
  exact ⟨value, hvalue, hshows, by rw [Names.get, hr], by rw [Values.get, hvalue]⟩

theorem clock_eq (h : Represents names values m w) (name : Option String) :
    names.clock name = values.clock name := by
  cases name with
  | none => rfl
  | some name =>
      rw [Names.clock, Values.clock]
      cases hname : names name with
      | none =>
          obtain ⟨hnames, hvalues⟩ := h.get_eq_error hname
          rw [hnames, hvalues]
          rfl
      | some r =>
          obtain ⟨value, -, hshows, hnames, hvalues⟩ := h.get_eq_ok hname
          rw [hnames, hvalues]
          exact hshows.asClock_eq

/-- An object that is not there yet has no name. -/
theorem names_ne_some (h : Represents names values m w) (hr : ¬m.IsThere r) (name : String) :
    names name ≠ some r := by
  intro hname
  obtain ⟨value, -, hshows⟩ := h.exists_value hname
  exact hr hshows.isThere

/-! ### What is done to objects and values in step -/

theorem of_keeps {m' : Memory} {w' : World} (h : Represents names values m w) (hkeeps : m.Keeps m')
    (hsound : m'.Sound) (hclocks : w'.clocks = m'.clocks) (hsurroundings : w'.surroundings = m'.surroundings)
    (hcount : m'.schedules.length = w'.schedules.length)
    (hschedules : ∀ (i : ScheduleId) o a, m'.schedules[i]? = some o → w'.schedules[i]? = some a →
      m'.ShowsSchedule o a) :
    Represents names values m' w' where
  sound := hsound
  clocks := hclocks
  surroundings := hsurroundings
  count := hcount
  schedules := hschedules
  bound := h.bound
  named name r value hr hvalue := (h.named name r value hr hvalue).of_keeps hkeeps
  distinct := h.distinct

theorem withScene {clocks : List Clock} (h : Represents names values m w)
    (hlength : m.clocks.length ≤ clocks.length) (surroundings : Surroundings) :
    Represents names values { m with clocks, surroundings } { w with clocks, surroundings } :=
  h.of_keeps ⟨hlength, le_rfl, fun _ _ _ ho hplan => ⟨ho, hplan⟩⟩ ⟨h.sound.plans, h.sound.own⟩
    rfl rfl h.count h.schedules

theorem withList (h : Represents names values m w) (blocks : List Block) :
    Represents names values (m.withList blocks) w := by
  refine h.of_keeps (m.keeps_withList blocks) (h.sound.withList blocks) h.clocks h.surroundings h.count ?_
  intro i o a ho ha
  exact (h.schedules i o a ho ha).imp_right plan?_withList

theorem own (h : Represents names values m w) (p : Plan) : Represents names values (m.own p).2 w := by
  cases p with
  | single b => exact h
  | merged blocks hne => exact h.withList blocks

theorem withSchedule (h : Represents names values m w) (hshows : m.ShowsSchedule o a)
    (hown : ∀ l, o.blocks = .list l → ∀ r, m.holding? r ≠ some (.list l)) :
    Represents names values (m.withSchedule o) (w.withSchedule a) := by
  refine h.of_keeps (m.keeps_withSchedule o) (h.sound.withSchedule hshows.2 hown) h.clocks h.surroundings
    ?_ fun i o' a' ho' ha' => ?_
  · simp [Memory.withSchedule, World.withSchedule, h.count]
  · rw [Memory.withSchedule, List.getElem?_append] at ho'
    rw [World.withSchedule, List.getElem?_append, ← h.count] at ha'
    split at ho'
    · rw [if_pos ‹_›] at ha'
      exact h.schedules i o' a' ho' ha'
    · rw [if_neg ‹_›] at ha'
      simp only [List.getElem?_singleton, Option.ite_none_right_eq_some, Option.some_inj] at ho' ha'
      obtain ⟨-, rfl⟩ := ho'
      obtain ⟨-, rfl⟩ := ha'
      exact hshows

theorem withIterator {o : IteratorObject} {p : Plan} (h : Represents names values m w)
    (hplan : m.plan? o.blocks = some p)
    (hapart : ∀ l, o.blocks = .list l → ∀ i, m.holding? (.schedule i) ≠ some (.list l)) :
    Represents names values (m.withIterator o) w :=
  h.of_keeps (m.keeps_withIterator o) (h.sound.withIterator hplan hapart) h.clocks h.surroundings h.count
    h.schedules

/-- An addition in place changes one schedule, as nothing else goes by its list. -/
theorem withMore (h : Represents names values m w) (hi : m.schedules[i]? = some o) (ha : m.ShowsSchedule o a)
    (hl : o.blocks = .list l) :
    Represents names values (m.withMore l b.plan.blocks) (w.withScheduleAt i (a + b)) := by
  have hholding : m.holding? (.schedule i) = some (.list l) := hl ▸ holding?_schedule hi
  refine h.of_keeps (h.sound.keeps_withMore hholding _) (h.sound.withMore l b.plan) h.clocks h.surroundings
    ?_ fun j o' a' ho' ha' => ?_
  · rw [World.withScheduleAt, List.length_set]
    exact h.count
  · rw [World.withScheduleAt] at ha'
    by_cases hj : j = i
    · subst hj
      obtain rfl : o = o' := Option.some.inj (hi.symm.trans ho')
      have hlt : j < w.schedules.length := h.count ▸ (List.getElem?_eq_some_iff.mp hi).1
      rw [List.getElem?_set_self hlt, Option.some_inj] at ha'
      subst ha'
      exact ⟨ha.1, hl ▸ plan?_withMore_self (hl ▸ ha.2)⟩
    · rw [List.getElem?_set_ne (Ne.symm hj)] at ha'
      obtain ⟨hbase, hplan⟩ := h.schedules j o' a' ho' ha'
      refine ⟨hbase, (plan?_withMore_of_ne ?_).trans hplan⟩
      intro hl'
      have hother : m.holding? (.schedule j) = some o'.blocks := holding?_schedule ho'
      cases h.sound.own i _ l hholding (hl' ▸ hother)
      exact hj rfl

/-- A name is given to an object that has no other one. -/
theorem bind (h : Represents names values m w) (hshows : m.Shows r value)
    (hother : ∀ other, names other = some r → other = name) :
    Represents (names.bind name r) (values.bind name value) m w where
  sound := h.sound
  clocks := h.clocks
  surroundings := h.surroundings
  count := h.count
  schedules := h.schedules
  bound other := by
    by_cases hname : other = name
    · simp [Names.bind, hname]
    · rw [Names.bind, if_neg hname, values.get?_bind_of_ne value hname, h.bound]
  named other r' value' hr hvalue := by
    by_cases hname : other = name
    · subst hname
      rw [Names.bind, if_pos rfl, Option.some_inj] at hr
      rw [Values.get?_bind_self, Option.some_inj] at hvalue
      exact hr ▸ hvalue ▸ hshows
    · rw [Names.bind, if_neg hname] at hr
      rw [values.get?_bind_of_ne value hname] at hvalue
      exact h.named other r' value' hr hvalue
  distinct := by
    intro one other r' hone hother'
    simp only [Names.bind] at hone hother'
    split at hone <;> split at hother'
    · rw [‹one = name›, ‹other = name›]
    · exact absurd (hother other (hother'.trans hone.symm)) ‹_›
    · exact absurd (hother one (hone.trans hother'.symm)) ‹_›
    · exact h.distinct one other r' hone hother'

/-- A move changes one iterator, as no other name stands for it. -/
theorem moved {id : IteratorId} {o : IteratorObject} {p : Plan} (h : Represents names values m w)
    (hname : names name = some (.iterator id)) (ho : m.iterators[id]? = some o)
    (hplan : m.plan? o.blocks = some p) (current : Instant) (reached : Bool) :
    Represents names (values.bind name (.iterator ({ o with current, reached }.withPlan p) o.clock))
      { m with iterators := m.iterators.modify id fun o => { o with current, reached } } w where
  sound := h.sound.modify_iterators id fun _ => rfl
  clocks := h.clocks
  surroundings := h.surroundings
  count := h.count
  schedules := h.schedules
  bound other := by
    by_cases hother : other = name
    · simp [hother, hname]
    · rw [values.get?_bind_of_ne _ hother, h.bound]
  named other r value hr hvalue := by
    by_cases hother : other = name
    · subst hother
      obtain rfl := Option.some.inj (hname.symm.trans hr)
      rw [Values.get?_bind_self, Option.some_inj] at hvalue
      subst hvalue
      refine .iterator (o := { o with current, reached }) ?_ hplan
      rw [List.getElem?_modify_eq, ho]
      rfl
    · rw [values.get?_bind_of_ne _ hother] at hvalue
      cases h.named other r value hr hvalue with
      | @iterator id' o' p' ho' hplan' =>
          have hne : id ≠ id' := by
            rintro rfl
            exact hother (h.distinct other name _ hr hname)
          refine .iterator (o := o') ?_ hplan'
          rw [List.getElem?_modify_ne _ _ hne, ho']
      | schedule hlt => exact .schedule hlt
      | clock hlt => exact .clock hlt
  distinct := h.distinct

end Represents

end Timetable
