import Timetable.Proofs.Memory.Representation
import Timetable.Proofs.Occurrence.Asking

/-! # Acting on objects and on values alike

An action on objects and one on values act alike if they end in the same error or with results that belong
together, and the objects represent the values afterwards (`ActAlike`).  Actions that act alike can be put one
after another (`ActAlike.bind`), and one side may do something that the other has no need of, such as copying
a list (`ActAlike.bind_left`).  Each part of a step acts alike on both sides. -/

namespace Timetable

variable {α β γ δ : Type}

/-- The same error, or two results, with what there is in the end. -/
inductive EndAlike (E : Memory → World → Prop) (Q : α → β → Memory → World → Prop) :
    Except Error α × Memory → Except Error β × World → Prop where
  | ok {a : α} {b : β} {m : Memory} {w : World} (h : Q a b m w) : EndAlike E Q (.ok a, m) (.ok b, w)
  | error (error : Error) {m : Memory} {w : World} (h : E m w) :
      EndAlike E Q (.error error, m) (.error error, w)

/-- Wherever `P` holds, both actions fail with the same error and the objects still represent the values, or `Q`
holds of their results and what there is then. -/
def ActAlike (names : Names) (values : Values) (P : Memory → World → Prop) (x : MemoryAction α)
    (y : WorldAction β) (Q : α → β → Memory → World → Prop) : Prop :=
  ∀ m w, P m w → EndAlike (Represents names values) Q (ExceptT.run x m) (ExceptT.run y w)

/-- Both results are the same, and `Q` holds of it. -/
def Same (Q : α → Memory → World → Prop) : α → α → Memory → World → Prop :=
  fun a b m w => a = b ∧ Q a m w

/-- An object is a value, and has no name but perhaps the given one. -/
def Made (names : Names) (values : Values) (target : String) (r : Reference) (value : Value) (m : Memory)
    (w : World) : Prop :=
  Represents names values m w ∧ m.Shows r value ∧ ∀ other, names other = some r → other = target

/-- A move leaves an iterator with its configuration. -/
theorem IteratorObject.withPlan_of_configuredAs {o : IteratorObject} {p : Plan} {moved : Iterator}
    (h : moved.ConfiguredAs (o.withPlan p)) :
    { o with current := moved.current, reached := moved.reached }.withPlan p = moved := by
  obtain ⟨plan, current, skip, offset, reached⟩ := moved
  obtain ⟨rfl, rfl, rfl⟩ : plan = p ∧ skip = o.skipOutdated ∧ offset = o.offset := h
  rfl

/-- The names after an outcome. -/
def ObjectOutcome.names (o : ObjectOutcome) (names : Names) : Names :=
  match o.binding with
  | some (name, r) => names.bind name r
  | none => names

/-- The named values after an outcome. -/
def Outcome.values (o : Outcome) (values : Values) : Values :=
  match o.binding with
  | some (name, value) => values.bind name value
  | none => values

/-- The answers are the same, and the objects represent the values under the names that there are then. -/
def Settled (names : Names) (values : Values) (o : ObjectOutcome) (o' : Outcome) (m : Memory) (w : World) :
    Prop :=
  o.answer = o'.answer ∧ Represents (o.names names) (o'.values values) m w

namespace Represents

variable {names : Names} {values : Values} {m : Memory} {w : World}

/-- What was not there before has no name yet. -/
theorem made {m' : Memory} {w' : World} {r : Reference} {value : Value} (h : Represents names values m w)
    (h' : Represents names values m' w') (hshows : m'.Shows r value) (hr : ¬m.IsThere r) (target : String) :
    Made names values target r value m' w' :=
  ⟨h', hshows, fun other hother => absurd hother (h.names_ne_some hr other)⟩

theorem made_withIterator {o : IteratorObject} {p : Plan} (h : Represents names values m w)
    (hplan : m.plan? o.blocks = some p)
    (hapart : ∀ l, o.blocks = .list l → ∀ i, m.holding? (.schedule i) ≠ some (.list l))
    (target : String) :
    Made names values target (.iterator m.iterators.length) (.iterator (o.withPlan p) o.clock)
      (m.withIterator o) w := by
  have hplan' : (m.withIterator o).plan? o.blocks = some p := hplan
  exact h.made (h.withIterator hplan hapart) (.iterator List.getElem?_concat_length hplan')
    (Nat.lt_irrefl _) target

end Represents

namespace ActAlike

open Timetable.Action

variable {names : Names} {values : Values} {P P' : Memory → World → Prop} {x : MemoryAction α}
  {y : WorldAction β} {f : α → MemoryAction γ} {g : β → WorldAction δ}
  {S : α → β → Memory → World → Prop} {Q : γ → δ → Memory → World → Prop}

/-! ### Putting actions together -/

theorem of_imp (h : ActAlike names values P x y S) (hP : ∀ m w, P' m w → P m w) :
    ActAlike names values P' x y S :=
  fun m w hm => h m w (hP m w hm)

/-- What follows from `P` may be assumed. -/
theorem assume {p : Prop} (hp : ∀ m w, P m w → p) (h : p → ActAlike names values P x y S) :
    ActAlike names values P x y S :=
  fun m w hm => h (hp m w hm) m w hm

/-- The world has the clocks of the memory, and its surroundings. -/
theorem of_world (h : ∀ m schedules, Represents names values m ⟨m.clocks, schedules, m.surroundings⟩ →
      EndAlike (Represents names values) S (ExceptT.run x m)
        (ExceptT.run y ⟨m.clocks, schedules, m.surroundings⟩)) :
    ActAlike names values (Represents names values) x y S := by
  intro m w hm
  obtain ⟨clocks, schedules, surroundings⟩ := w
  obtain rfl : clocks = m.clocks := hm.clocks
  obtain rfl : surroundings = m.surroundings := hm.surroundings
  exact h m schedules hm

theorem bind (hx : ActAlike names values P x y S) (hf : ∀ a b, ActAlike names values (S a b) (f a) (g b) Q) :
    ActAlike names values P (x >>= f) (y >>= g) Q := by
  intro m w hm
  have hxy := hx m w hm
  rw [run_bind, run_bind]
  generalize ExceptT.run x m = rx at hxy ⊢
  generalize ExceptT.run y w = ry at hxy ⊢
  cases hxy with
  | ok h => exact hf _ _ _ _ h
  | error error h => exact .error error h

theorem bind_same {x : MemoryAction α} {y : WorldAction α} {f : α → MemoryAction γ}
    {g : α → WorldAction δ} {S : α → Memory → World → Prop}
    (hx : ActAlike names values P x y (Same S))
    (hf : ∀ a, ActAlike names values (S a) (f a) (g a) Q) :
    ActAlike names values P (x >>= f) (y >>= g) Q := by
  refine hx.bind fun a b m w h => ?_
  obtain ⟨rfl, hS⟩ := h
  exact hf a m w hS

/-- What is looked up is known. -/
theorem bind_ok {a : α} {b : β} (h : ActAlike names values P (f a) (g b) Q) :
    ActAlike names values P (liftM (.ok a : Except Error α) >>= f) (liftM (.ok b : Except Error β) >>= g) Q :=
  h

/-- Something is done to the objects of which the values take no notice. -/
theorem bind_left {y : WorldAction δ} {S : α → Memory → World → Prop}
    (hx : ∀ m w, P m w → ∃ a m', ExceptT.run x m = (.ok a, m') ∧ S a m' w)
    (hf : ∀ a, ActAlike names values (S a) (f a) y Q) : ActAlike names values P (x >>= f) y Q := by
  intro m w hm
  obtain ⟨a, m', hrun, hS⟩ := hx m w hm
  rw [run_bind_of_ok hrun]
  exact hf a m' w hS

/-- Both sides look at what there is. -/
theorem bind_states {f : Memory → MemoryAction γ} {g : World → WorldAction δ}
    (h : ∀ m w, P m w → EndAlike (Represents names values) Q (ExceptT.run (f m) m) (ExceptT.run (g w) w)) :
    ActAlike names values P (get >>= f) (get >>= g) Q :=
  h

theorem pure {a : α} {b : β} (h : ∀ m w, P m w → S a b m w) :
    ActAlike names values P (Pure.pure a) (Pure.pure b) S :=
  fun m w hm => .ok (h m w hm)

theorem throw (error : Error) (hP : ∀ m w, P m w → Represents names values m w) :
    ActAlike names values P (MonadExcept.throw error) (MonadExcept.throw error) S :=
  fun m w hm => .error error (hP m w hm)

theorem lift {u v : Except Error α} (h : u = v) (hP : ∀ m w, P m w → Represents names values m w) :
    ActAlike names values P (liftM u) (liftM v) (Same fun _ => P) := by
  intro m w hm
  rw [run_lift, run_lift, h]
  cases v with
  | ok a => exact .ok ⟨rfl, hm⟩
  | error error => exact .error error (hP m w hm)

/-! ### Clocks and what surrounds them -/

theorem onSurroundings (change : Surroundings → Surroundings) :
    ActAlike names values (Represents names values)
      (modify fun m => { m with surroundings := change m.surroundings })
      (modify fun w => { w with surroundings := change w.surroundings })
      (Same fun _ => Represents names values) :=
  .of_world fun _ _ h => .ok ⟨rfl, h.withScene le_rfl _⟩

theorem ofReported (c : Reported α) :
    ActAlike names values (Represents names values) (MemoryAction.ofReported c) (WorldAction.ofReported c)
      (Same fun _ => Represents names values) := by
  rw [MemoryAction.ofReported, WorldAction.ofReported]
  exact .bind_same (onSurroundings fun s => { s with log := s.log ++ c.outcome.2.toArray }) fun _ =>
    .lift rfl fun _ _ h => h

theorem byClock (id : ClockId) (act : StateM Scene α) :
    ActAlike names values (Represents names values) (MemoryAction.byClock id act)
      (WorldAction.byClock id act) (Same fun _ => Represents names values) :=
  .of_world fun _ _ h => .ok ⟨rfl, h.withScene List.length_set.ge _⟩

theorem ofAction (id : ClockId) (action : Action α) :
    ActAlike names values (Represents names values) (MemoryAction.ofAction id action)
      (WorldAction.ofAction id action) (Same fun _ => Represents names values) :=
  .bind_same (byClock id action.run) fun _ => .lift rfl fun _ _ h => h

theorem newClock (clock : Clock) (target : String) :
    ActAlike names values (Represents names values) (MemoryAction.newClock clock)
      (WorldAction.addClock clock) fun i j => Made names values target (.clock i) (.clock j) := by
  refine .of_world fun m schedules h => ?_
  have hlength : m.clocks.length ≤ (m.clocks ++ [clock]).length := by simp
  exact .ok (h.made (h.withScene hlength _) (.clock (by simp)) (Nat.lt_irrefl m.clocks.length) target)

/-! ### Schedules -/

theorem scheduleObject (i : ScheduleId) (hP : ∀ m w, P m w → Represents names values m w) :
    ActAlike names values P (MemoryAction.scheduleObject i) (WorldAction.schedule i)
      fun o a m w => P m w ∧ m.schedules[i]? = some o ∧ m.ShowsSchedule o a := by
  intro m w hm
  change EndAlike _ _ (orUnsuitable m.schedules[i]?, m) (w.schedule i, w)
  by_cases hi : i < m.schedules.length
  · obtain ⟨o, a, ho, ha, hshows⟩ := (hP m w hm).exists_schedule hi
    rw [ho, World.schedule_eq_ok_iff.mpr ha]
    exact .ok ⟨hm, ho, hshows⟩
  · have hw : w.schedules.length ≤ i := (hP m w hm).count ▸ Nat.le_of_not_lt hi
    rw [List.getElem?_eq_none (Nat.le_of_not_lt hi), World.schedule, List.getElem?_eq_none hw]
    exact .error .unsuitable (hP m w hm)

theorem schedule (i : ScheduleId) (hP : ∀ m w, P m w → Represents names values m w) :
    ActAlike names values P (MemoryAction.schedule i) (WorldAction.schedule i) (Same fun _ => P) := by
  intro m w hm
  change EndAlike _ _ (orUnsuitable (m.schedule? i), m) (w.schedule i, w)
  rw [(hP m w hm).orUnsuitable_schedule?]
  cases w.schedule i with
  | ok a => exact .ok ⟨rfl, hm⟩
  | error error => exact .error error (hP m w hm)

/-- A new schedule by a block of its own, or by a list to which no object refers. -/
theorem newSchedule (o : ScheduleObject) (a : Schedule) (target : String) :
    ActAlike names values
      (fun m w => Represents names values m w ∧ m.ShowsSchedule o a
        ∧ ∀ l, o.blocks = .list l → ∀ r, m.holding? r ≠ some (.list l))
      (MemoryAction.newSchedule o) (WorldAction.addSchedule a)
      fun i j => Made names values target (.schedule i) (.schedule j) := by
  rintro m w ⟨h, hshows, hown⟩
  have hadded : (m.withSchedule o).Shows (.schedule m.schedules.length) (.schedule w.schedules.length) := by
    rw [← h.count]
    exact .schedule (by simp [Memory.withSchedule])
  exact .ok (h.made (h.withSchedule hshows hown) hadded (Nat.lt_irrefl m.schedules.length) target)

/-- A merged schedule takes a copy of the list that it is given. -/
theorem merge (l : ListId) (a : Schedule) (target : String) :
    ActAlike names values (fun m w => Represents names values m w ∧ m.plan? (.list l) = some a.plan)
      (MemoryAction.merge a.base l) (WorldAction.addSchedule a)
      fun i j => Made names values target (.schedule i) (.schedule j) := by
  rintro m w ⟨h, hplan⟩
  have hnew := newSchedule ⟨a.base, (m.own a.plan).1⟩ a target _ w
    ⟨h.own a.plan, ⟨rfl, m.plan?_own a.plan⟩, fun l hl => h.sound.holding?_own a.plan hl⟩
  rw [MemoryAction.merge_run a.base hplan, ← m.schedules_own a.plan]
  exact hnew

theorem sum (i j : ScheduleId) (target : String) :
    ActAlike names values (Represents names values) (MemoryAction.sum i j) (WorldAction.sum i j)
      fun i j => Made names values target (.schedule i) (.schedule j) := by
  refine .bind (scheduleObject i fun _ _ h => h) fun o a => ?_
  refine .bind (scheduleObject j fun _ _ h => h.1) fun o' b => ?_
  rintro m w ⟨⟨h, -, ha⟩, -, hb⟩
  have hlist : ExceptT.run (MemoryAction.newList (a.plan.blocks ++ b.plan.blocks)) m
      = (.ok m.lists.length, m.withList (a.plan.blocks ++ b.plan.blocks)) := rfl
  rw [run_bind_of_ok (MemoryAction.blocksOf_run ha.2), run_bind_of_ok (MemoryAction.blocksOf_run hb.2),
    run_bind_of_ok hlist, ha.1]
  exact merge m.lists.length (a + b) target _ w ⟨h.withList _, m.plan?_own (a + b).plan⟩

/-- A merged schedule adds to its own list, and a single one becomes part of a sum. -/
theorem extend {left : String} {i : ScheduleId} (j : ScheduleId)
    (hleft : names left = some (.schedule i)) :
    ActAlike names values (Represents names values) (MemoryAction.extend i j) (WorldAction.extend i j)
      fun i j => Made names values left (.schedule i) (.schedule j) := by
  refine .bind (scheduleObject i fun _ _ h => h) fun o a => ?_
  cases hblocks : o.blocks with
  | block b =>
      refine .assume (p := a.plan.isMerged = false) ?_ fun hmerged => ?_
      · rintro m w ⟨-, -, -, hplan⟩
        rw [hblocks, Memory.plan?_block_eq_some_iff] at hplan
        rw [hplan]
        rfl
      · rw [hmerged]
        exact (sum i j left).of_imp fun _ _ h => h.1
  | list l =>
      refine .assume (p := a.plan.isMerged = true) ?_ fun hmerged => ?_
      · rintro m w ⟨-, -, -, hplan⟩
        rw [hblocks, Memory.plan?_list_eq_some_iff] at hplan
        exact hplan.2
      · rw [if_pos hmerged]
        refine .bind (scheduleObject j fun _ _ h => h.1) fun o' b => ?_
        rintro m w ⟨⟨h, hi, ha⟩, -, hb⟩
        have hlt : i < m.schedules.length := (List.getElem?_eq_some_iff.mp hi).1
        -- the one place where a list is changed that an object goes by
        rw [run_bind_of_ok (MemoryAction.blocksOf_run hb.2)]
        refine .ok ⟨h.withMore hi ha hblocks, .schedule hlt, fun other hother => ?_⟩
        exact h.distinct other left _ hother hleft

/-- An iterator takes a copy of the list that it is given. -/
theorem beginIterator (given : Holding) (p : Plan) (start : Moment) (skip : Bool) (offset : Option Offset)
    (clock : ClockId) (target : String) :
    ActAlike names values (fun m w => Represents names values m w ∧ m.plan? given = some p)
      (MemoryAction.beginIterator given start skip offset clock)
      (liftM (Iterator.startingAt p start skip offset))
      fun id it => Made names values target (.iterator id) (.iterator it clock) := by
  rintro m w ⟨h, hplan⟩
  rw [run_lift, Iterator.startingAt]
  cases hstart : start.aware .start with
  | error error =>
      rw [MemoryAction.beginIterator_run_of_error skip offset clock hplan hstart]
      exact .error error h
  | ok current =>
      rw [MemoryAction.beginIterator_run skip offset clock hplan hstart, ← m.iterators_own p]
      refine .ok ((h.own p).made_withIterator (o := ⟨(m.own p).1, current, skip, offset, false, clock⟩)
        (m.plan?_own p) (fun l hl i => ?_) target)
      exact h.sound.holding?_own p hl _

/-- The copy of an iterator represents the changed iterator. -/
theorem exists_copyIterator {name : String} {id : IteratorId} {it : Iterator} {clock : ClockId}
    {change : IteratorObject → IteratorObject} {changed : Iterator → Iterator} {m : Memory} {w : World}
    (hname : names name = some (.iterator id)) (hvalue : values.get? name = some (.iterator it clock))
    (hchange : ∀ o, (change o).blocks = o.blocks ∧ (change o).clock = o.clock
      ∧ ∀ p, (change o).withPlan p = changed (o.withPlan p))
    (target : String) (h : Represents names values m w) :
    ∃ copy m', ExceptT.run (MemoryAction.copyIterator id change) m = (.ok copy, m')
      ∧ Made names values target (.iterator copy) (.iterator (changed it) clock) m' w := by
  cases h.named name _ _ hname hvalue with
  | @iterator _ o p ho hplan =>
      obtain ⟨hblocks, hclock, hover⟩ := hchange o
      rw [← hover, ← hclock]
      refine ⟨_, _, MemoryAction.copyIterator_run change ho,
        h.made_withIterator (hblocks ▸ hplan) ?_ target⟩
      intro l hl i hi
      cases h.sound.own i _ l hi (hl ▸ hblocks ▸ Memory.holding?_iterator ho)

/-- A move is made by the iterator, which no other name stands for. -/
theorem move {name : String} {id : IteratorId} {it : Iterator} {clock : ClockId}
    {act : Iterator → StateM Scene (α × Iterator)} (hname : names name = some (.iterator id))
    (hvalue : values.get? name = some (.iterator it clock))
    (hact : ∀ s, ((act it).run s).1.2.ConfiguredAs it) :
    ActAlike names values (Represents names values) (MemoryAction.move id act)
      (WorldAction.byClock clock (act it))
      fun x y m w => x = (y.1, y.2.current)
        ∧ Represents names (values.bind name (.iterator y.2 clock)) m w := by
  refine .of_world fun m schedules h => ?_
  cases h.named name _ _ hname hvalue with
  | @iterator _ o p ho hplan =>
      have hit : ExceptT.run (MemoryAction.iterator id) m = (.ok (o.withPlan p), m) := by
        change (orUnsuitable (m.iterator? id), m) = _
        rw [Memory.iterator?_eq_some ho hplan]
        rfl
      have hconfigured := hact ⟨m.clock o.clock, m.surroundings⟩
      -- both sides run the same step in the same scene; only what it leaves is needed
      have hby : ExceptT.run (MemoryAction.byClock o.clock (act (o.withPlan p))) m
          = (let run := (act (o.withPlan p)).run ⟨m.clock o.clock, m.surroundings⟩
            (.ok run.1, { m with
              clocks := m.clocks.set o.clock run.2.clock, surroundings := run.2.surroundings })) := rfl
      have hby' : ExceptT.run (WorldAction.byClock o.clock (act (o.withPlan p)))
            ⟨m.clocks, schedules, m.surroundings⟩
          = (let run := (act (o.withPlan p)).run ⟨m.clock o.clock, m.surroundings⟩
            (.ok run.1, ⟨m.clocks.set o.clock run.2.clock, schedules, run.2.surroundings⟩)) := rfl
      generalize (act (o.withPlan p)).run ⟨m.clock o.clock, m.surroundings⟩ = run at *
      obtain ⟨⟨result, moved⟩, scene⟩ := run
      have hlength : m.clocks.length ≤ (m.clocks.set o.clock scene.clock).length := List.length_set.ge
      have hmoved := (h.withScene hlength scene.surroundings).moved hname ho hplan moved.current moved.reached
      rw [IteratorObject.withPlan_of_configuredAs hconfigured] at hmoved
      rw [MemoryAction.move, run_bind_of_ok (MemoryAction.iteratorObject_run ho), run_bind_of_ok hit,
        run_bind_of_ok hby, hby']
      exact .ok ⟨rfl, hmoved⟩

/-! ### Names -/

/-- What a name stands for is looked up.  What kind of value it is does not change afterwards, whatever the memory
is then. -/
theorem bind_get (name : String) {f : Reference → MemoryAction γ} {g : Value → WorldAction δ}
    (h : ∀ (m : Memory) r value, names name = some r → values.get? name = some value → m.Shows r value →
      ActAlike names values (Represents names values) (f r) (g value) Q) :
    ActAlike names values (Represents names values) (liftM (names.get name) >>= f)
      (liftM (values.get name) >>= g) Q := by
  intro m w hm
  rw [run_bind, run_bind, run_lift, run_lift]
  cases hname : names name with
  | none =>
      rw [(hm.get_eq_error hname).1, (hm.get_eq_error hname).2]
      exact .error _ hm
  | some r =>
      obtain ⟨value, hvalue, hshows, hr, hv⟩ := hm.get_eq_ok hname
      rw [hr, hv]
      exact h m r value hname hvalue hshows m w hm

/-- A named iterator is looked up. -/
theorem bind_iterator (name : String) {f : IteratorId → MemoryAction γ}
    {g : Iterator × ClockId → WorldAction δ}
    (h : ∀ id it clock, names name = some (.iterator id) →
      values.get? name = some (.iterator it clock) →
      ActAlike names values (Represents names values) (f id) (g (it, clock)) Q) :
    ActAlike names values (Represents names values)
      (liftM (names.get name) >>= fun r => liftM r.asIterator >>= f)
      (liftM (values.get name) >>= fun value => liftM value.asIterator >>= g) Q := by
  refine bind_get name fun m r value hr hvalue hshows => ?_
  cases hshows with
  | iterator ho hplan => exact bind_ok (h _ _ _ hr hvalue)
  | schedule hlt => exact .throw .unsuitable fun _ _ h => h
  | clock hlt => exact .throw .unsuitable fun _ _ h => h

/-- A named clock is looked up. -/
theorem bind_clock (name : String) {f : ClockId → MemoryAction γ} {g : ClockId → WorldAction δ}
    (h : ∀ id, ActAlike names values (Represents names values) (f id) (g id) Q) :
    ActAlike names values (Represents names values)
      (liftM (names.get name) >>= fun r => liftM r.asClock >>= f)
      (liftM (values.get name) >>= fun value => liftM value.asClock >>= g) Q :=
  bind_get name fun _ _ _ _ _ hshows => .bind_same (lift hshows.asClock_eq fun _ _ h => h) h

/-- A clock is looked up, if one is given. -/
theorem clock (name : Option String) :
    ActAlike names values (Represents names values) (liftM (names.clock name)) (liftM (values.clock name))
      (Same fun _ => Represents names values) :=
  fun m w h => lift (h.clock_eq name) (fun _ _ h => h) m w h

/-- An operand of an addition is looked up. -/
theorem bind_operand (operand : Operand) {f : Option Reference → MemoryAction γ}
    {g : Option Value → WorldAction δ}
    (h : ∀ r value, objectAddend r = addend value →
      ActAlike names values (Represents names values) (f r) (g value) Q) :
    ActAlike names values (Represents names values) (liftM (names.operand operand) >>= f)
      (liftM (values.operand operand) >>= g) Q := by
  cases operand with
  | plain => exact h none none rfl
  | named name =>
      intro m w hm
      rw [run_bind, run_bind, run_lift, run_lift, Names.operand, Values.operand]
      cases hname : names name with
      | none =>
          rw [(hm.get_eq_error hname).1, (hm.get_eq_error hname).2]
          exact .error _ hm
      | some r =>
          obtain ⟨value, -, hshows, hr, hv⟩ := hm.get_eq_ok hname
          rw [hr, hv]
          exact h (some r) (some value) hshows.asSchedule_eq m w hm

theorem make (target : String) (r : Reference) (value : Value) :
    ActAlike names values (Made names values target r value) (ObjectOutcome.make target r)
      (Outcome.make target value) (Settled names values) := by
  refine .bind_states fun m w ⟨h, hshows, hother⟩ => ?_
  rw [run_bind, run_bind, run_lift, run_lift, h.view_eq hshows]
  cases value.view w with
  | ok view => exact .ok ⟨rfl, h.bind hshows hother⟩
  | error error => exact .error error h

theorem tell (answer : Answer) :
    ActAlike names values (Represents names values) (ObjectOutcome.tell answer) (Outcome.tell answer)
      (Settled names values) :=
  .pure fun _ _ h => ⟨rfl, h⟩

end ActAlike

end Timetable
