import Timetable.Proofs.Memory.Simulation

/-! # A session in terms of objects

A step does the same with objects as with values (`ActAlike.task`), so a workspace answers every request as the
session does whose values its objects represent (`Workspace.performAll_refines`, `Workspace.performAll_ofHost`).
That iterators are objects and blocks are kept in lists makes no difference to any answer, since a list is
copied wherever it could come to be shared with a schedule. -/

namespace Timetable

namespace ActAlike

variable {names : Names} {values : Values}

/-! ### Steps in parts -/

/-- A merged schedule is made with a copy of a list, if there is anything in it. -/
theorem makeMerged (target : String) (base : Moment) (l : ListId) (blocks : List Block) :
    ActAlike names values (fun m w => Represents names values m w ∧ m.lists[l]? = some blocks)
      (MemoryAction.merge base l >>= fun id => ObjectOutcome.make target (.schedule id))
      (liftM (Schedule.ofBlocks base blocks) >>= fun s => Outcome.makeSchedule target s)
      (Settled names values) := by
  by_cases hne : blocks = []
  · subst hne
    rintro m w ⟨h, hl⟩
    rw [Action.run_bind, MemoryAction.merge_run_of_nil base hl, Action.run_bind, Action.run_lift]
    exact .error .nothingToSchedule h
  · have hs : Schedule.ofBlocks base blocks = .ok ⟨base, .merged blocks hne⟩ := by
      rw [Schedule.ofBlocks, Plan.ofBlocks?, dif_neg hne]
    rw [hs]
    change ActAlike names values _ _
      (WorldAction.addSchedule _ >>= fun id => Outcome.make target (.schedule id)) _
    refine .bind ((merge l ⟨base, .merged blocks hne⟩ target).of_imp ?_) fun i j => make target _ _
    rintro m w ⟨h, hl⟩
    exact ⟨h, Memory.plan?_list_eq_some_iff.mpr ⟨hl, rfl⟩⟩

/-- A schedule is made of a single block. -/
theorem makeSingle (target : String) (base : Moment) (b : Block) :
    ActAlike names values (Represents names values)
      (MemoryAction.newSchedule ⟨base, .block b⟩ >>= fun id => ObjectOutcome.make target (.schedule id))
      (Outcome.makeSchedule target ⟨base, .single b⟩) (Settled names values) := by
  refine .bind ((newSchedule _ ⟨base, .single b⟩ target).of_imp ?_) fun i j => make target _ _
  intro m w h
  refine ⟨h, ⟨rfl, rfl⟩, ?_⟩
  rintro l ⟨⟩

/-- A list is made for what follows. -/
theorem bind_newList {γ δ : Type} {f : ListId → MemoryAction γ} {y : WorldAction δ}
    {P : Memory → World → Prop} {Q : γ → δ → Memory → World → Prop} (blocks : List Block)
    (hP : ∀ m w, P m w → Represents names values m w)
    (h : ∀ l, ActAlike names values (fun m w => Represents names values m w ∧ m.lists[l]? = some blocks)
      (f l) y Q) :
    ActAlike names values P (MemoryAction.newList blocks >>= f) y Q := by
  refine .bind_left (fun m w hm => ⟨m.lists.length, m.withList blocks, rfl, ?_⟩) h
  exact ⟨(hP m w hm).withList blocks, List.getElem?_concat_length⟩

theorem beginSome (target : String) (given : Holding) (p : Plan) (beginning : Beginning) (clock : ClockId) :
    ActAlike names values (fun m w => Represents names values m w ∧ m.plan? given = some p)
      (Workspace.begin target given beginning clock) (Step.beginIterator target p beginning clock)
      (Settled names values) :=
  .bind (beginIterator given p _ _ _ clock target) fun _ _ => make target _ _

theorem beginNothing (target : String) (l : ListId) (beginning : Beginning) (clock : ClockId) :
    ActAlike names values (fun m w => Represents names values m w ∧ m.lists[l]? = some [])
      (Workspace.begin target (.list l) beginning clock) (MonadExcept.throw .nothingToIterate)
      (Settled names values) := by
  rintro m w ⟨h, hl⟩
  rw [Workspace.begin, Action.run_bind, MemoryAction.beginIterator_run_of_nil _ _ _ _ hl]
  exact .error .nothingToIterate h

/-- An iterator is made with a copy of a list, if there is anything in it. -/
theorem iterateBlocks (target : String) (sources : List BlockSource) (beginning : Beginning) :
    ActAlike names values (Represents names values)
      (Workspace.task names (.iterateBlocks target sources beginning))
      (Step.task values (.iterateBlocks target sources beginning)) (Settled names values) := by
  refine .bind_same (ActAlike.clock beginning.clock) fun id => .bind_same (ofReported _) fun blocks => ?_
  refine bind_newList blocks (fun _ _ h => h) fun l => ?_
  by_cases hne : blocks = []
  · subst hne
    exact beginNothing target l beginning id
  · have hp : Plan.ofBlocks? blocks = some (.merged blocks hne) := by
      rw [Plan.ofBlocks?, dif_neg hne]
    rw [hp]
    refine (beginSome target (.list l) (.merged blocks hne) beginning id).of_imp ?_
    rintro m w ⟨h, hl⟩
    exact ⟨h, Memory.plan?_list_eq_some_iff.mpr ⟨hl, rfl⟩⟩

theorem copy (target of : String) {change : IteratorObject → IteratorObject} {changed : Iterator → Iterator}
    (hchange : ∀ o, (change o).blocks = o.blocks ∧ (change o).clock = o.clock
      ∧ ∀ p, (change o).withPlan p = changed (o.withPlan p)) :
    ActAlike names values (Represents names values) (Workspace.copy names target of change)
      (Step.copyIterator values target of changed) (Settled names values) :=
  bind_iterator of fun _ _ _ hr hvalue =>
    .bind_left (fun _ _ h => exists_copyIterator hr hvalue hchange target h) fun _ => make target _ _

theorem setClock (of : String) (time : Option Moment) (failures : Option Int) :
    ActAlike names values (Represents names values) (Workspace.task names (.setClock of time failures))
      (Step.task values (.setClock of time failures)) (Settled names values) := by
  refine bind_clock of fun id => .bind_states fun m w h => ?_
  obtain ⟨clocks, schedules, surroundings⟩ := w
  obtain rfl : clocks = m.clocks := h.clocks
  obtain rfl : surroundings = m.surroundings := h.surroundings
  have hclock : World.clock ⟨m.clocks, schedules, m.surroundings⟩ id = m.clock id := rfl
  rw [hclock]
  cases m.clock id with
  | system offset => exact .error .unsuitable h
  | manual c => exact .ok ⟨rfl, h.withScene List.length_set.ge _⟩

/-- A merged schedule is made with a copy of the list of another one. -/
theorem scheduleLike (target : String) (base : Moment) (of : String) :
    ActAlike names values (Represents names values) (Workspace.task names (.scheduleLike target base of))
      (Step.task values (.scheduleLike target base of)) (Settled names values) := by
  refine bind_get of fun m r value hr hvalue hshows => ?_
  refine .bind_same (lift hshows.asSchedule_eq fun _ _ h => h) fun i => ?_
  refine .bind (scheduleObject i fun _ _ h => h) fun o a => ?_
  cases hblocks : o.blocks with
  | block b =>
      refine .assume (p := a.plan.blocks = [b]) ?_ fun hplan => ?_
      · rintro m w ⟨-, -, -, hplan⟩
        rw [hblocks, Memory.plan?_block_eq_some_iff] at hplan
        rw [hplan]
        rfl
      · rw [hplan]
        exact bind_newList [b] (fun _ _ h => h.1) fun l => makeMerged target base l [b]
  | list l =>
      refine (makeMerged target base l a.plan.blocks).of_imp ?_
      rintro m w ⟨h, -, -, hplan⟩
      rw [hblocks, Memory.plan?_list_eq_some_iff] at hplan
      exact ⟨h, hplan.1⟩

theorem add (target : String) (left right : Operand) :
    ActAlike names values (Represents names values) (Workspace.task names (.add target left right))
      (Step.task values (.add target left right)) (Settled names values) := by
  refine bind_operand left fun r value hleft => bind_operand right fun r' value' hright => ?_
  refine .bind_same (lift hleft fun _ _ h => h) fun i => .bind_same (lift hright fun _ _ h => h) fun j => ?_
  exact .bind (sum i j target) fun _ _ => make target _ _

theorem addTo (left : String) (right : Operand) :
    ActAlike names values (Represents names values) (Workspace.task names (.addTo left right))
      (Step.task values (.addTo left right)) (Settled names values) := by
  refine bind_get left fun m r value hr hvalue hshows => bind_operand right fun r' value' hright => ?_
  cases hshows with
  | iterator ho hplan => exact .throw .unsuitable fun _ _ h => h
  | clock hlt => exact .throw .unsuitable fun _ _ h => h
  | @schedule i hlt =>
      refine bind_ok (a := i) (b := i) ?_
      refine .bind_same (lift hright fun _ _ h => h) fun j => .bind (extend j hr) fun k k' => ?_
      refine .assume (p := k = k') ?_ ?_
      · rintro m w ⟨-, hk, -⟩
        cases hk
        rfl
      · rintro rfl
        refine .bind_same (schedule k fun _ _ h => h.1) fun s => .pure ?_
        rintro m w ⟨h, hk, hother⟩
        exact ⟨rfl, h.bind hk hother⟩

/-- Objects other than schedules are equal if they are one and the same, so if they have one name. -/
theorem equal {m m' : Memory} {left right : String} {a b : Reference} {va vb : Value}
    (ha : names left = some a) (hb : names right = some b) (hshows : m.Shows a va)
    (hshows' : m'.Shows b vb) :
    ActAlike names values (Represents names values) (equalObjects a b) (equalValues (left, va) (right, vb))
      (Same fun _ => Represents names values) := by
  refine .assume (p := (a == b) = (left == right)) ?_ fun heq => ?_
  · intro m w h
    rw [Bool.eq_iff_iff, beq_iff_eq, beq_iff_eq]
    constructor
    · rintro rfl
      exact h.distinct left right a ha hb
    · rintro rfl
      exact Option.some.inj (ha.symm.trans hb)
  cases hshows with
  | @schedule i hlt =>
      cases hshows' with
      | @schedule j hlt' =>
          refine .bind_same (schedule i fun _ _ h => h) fun s => ?_
          refine .bind_same (schedule j fun _ _ h => h) fun t => ?_
          exact .pure fun _ _ h => ⟨rfl, h⟩
      | iterator ho hplan => exact .pure fun _ _ h => ⟨heq, h⟩
      | clock hlt' => exact .pure fun _ _ h => ⟨heq, h⟩
  | iterator ho hplan => cases hshows' <;> exact .pure fun _ _ h => ⟨heq, h⟩
  | clock hlt => cases hshows' <;> exact .pure fun _ _ h => ⟨heq, h⟩

theorem compare (left right : String) :
    ActAlike names values (Represents names values) (Workspace.task names (.compare left right))
      (Step.task values (.compare left right)) (Settled names values) := by
  refine bind_get left fun m a va ha hva hshows => bind_get right fun m' b vb hb hvb hshows' => ?_
  exact .bind_same (equal ha hb hshows hshows') fun equal => tell (.equal equal)

theorem display (of : String) :
    ActAlike names values (Represents names values) (Workspace.task names (.display of))
      (Step.task values (.display of)) (Settled names values) := by
  refine bind_get of fun m r value hr hvalue hshows => .bind_states fun m w h => ?_
  rw [h.view_eq (h.named of r value hr hvalue)]
  exact (ActAlike.lift rfl fun _ _ h => h).bind_same (fun view => tell (.view view)) m w h

/-- An iterator over a schedule takes a copy of its list. -/
theorem iteratorOf (i : ScheduleId) (o : ScheduleObject) (a : Schedule) (clock : ClockId) (target : String) :
    ActAlike names values
      (fun m w => Represents names values m w ∧ m.schedules[i]? = some o ∧ m.ShowsSchedule o a)
      (MemoryAction.beginIterator o.blocks o.base true none clock) (liftM a.iterator)
      fun id it => Made names values target (.iterator id) (.iterator it clock) := by
  refine .assume (p := o.base = a.base) (fun _ _ h => h.2.2.1) fun hbase => ?_
  rw [hbase]
  exact (beginIterator o.blocks a.plan a.base true none clock target).of_imp fun _ _ h => ⟨h.1, h.2.2.2⟩

theorem isOwnIterator (of : String) :
    ActAlike names values (Represents names values) (Workspace.task names (.isOwnIterator of))
      (Step.task values (.isOwnIterator of)) (Settled names values) := by
  refine bind_get of fun m r value hr hvalue hshows => ?_
  cases hshows with
  | iterator ho hplan => exact tell (.ownIterator true)
  | clock hlt => exact .throw .unsuitable fun _ _ h => h
  | @schedule i hlt =>
      refine .bind (scheduleObject i fun _ _ h => h) fun o a =>
        .bind (iteratorOf i o a World.standardClock of) fun _ _ => ?_
      exact (tell (.ownIterator false)).of_imp fun _ _ h => h.1

theorem iterate (target of : String) (clock : Option String) :
    ActAlike names values (Represents names values) (Workspace.task names (.iterate target of clock))
      (Step.task values (.iterate target of clock)) (Settled names values) := by
  refine bind_get of fun m r value hr hvalue hshows => .bind_same (ActAlike.clock clock) fun id => ?_
  refine .bind_same (lift hshows.asSchedule_eq fun _ _ h => h) fun i => ?_
  refine .bind (scheduleObject i fun _ _ h => h) fun o a => ?_
  exact .bind (iteratorOf i o a id target) fun _ _ => make target _ _

/-- An iterator is moved, and it is told what has been found. -/
theorem moving {α : Type} {name : String} {id : IteratorId} {it : Iterator} {clock : ClockId}
    {act : Iterator → StateM Scene (α × Iterator)} {f : α × Instant → MemoryAction ObjectOutcome}
    {g : α × Iterator → WorldAction Outcome} (hr : names name = some (.iterator id))
    (hvalue : values.get? name = some (.iterator it clock)) (hact : ∀ s, ((act it).run s).1.2.ConfiguredAs it)
    (htold : ∀ result moved, ∃ answer, f (result, moved.current) = Pure.pure ⟨answer, none⟩
      ∧ g (result, moved) = Pure.pure ⟨answer, some (name, .iterator moved clock)⟩) :
    ActAlike names values (Represents names values) (MemoryAction.move id act >>= f)
      (WorldAction.byClock clock (act it) >>= g) (Settled names values) := by
  refine .bind (move hr hvalue hact) fun x y => ?_
  rintro m w ⟨rfl, h⟩
  obtain ⟨answer, hf, hg⟩ := htold y.1 y.2
  rw [hf, hg]
  exact .ok ⟨rfl, h⟩

/-- A step does the same with objects as with values. -/
theorem task (step : Step) :
    ActAlike names values (Represents names values) (Workspace.task names step) (step.task values)
      (Settled names values) := by
  cases step with
  | manualClock target time failures => exact .bind (newClock _ target) fun _ _ => make target _ _
  | setClock of time failures => exact setClock of time failures
  | systemClock target offset => exact .bind (newClock _ target) fun _ _ => make target _ _
  | replaceHost host =>
      exact .bind_same (onSurroundings fun s => { s with host }) fun _ => tell .done
  | replaceVariables vars =>
      exact .bind_same (onSurroundings fun s => { s with settings := .ofVariables vars }) fun _ => tell .done
  | localOffset of =>
      exact bind_clock of fun id => .bind_same (ofAction id Clock.localOffset) fun _ => tell _
  | nowLocal of =>
      exact bind_clock of fun id => .bind_same (ofAction id Clock.nowLocal) fun _ => tell _
  | now of offset =>
      exact bind_clock of fun id => .bind_same (ofAction id (Clock.now offset)) fun _ => tell _
  | scheduleNow target phrase clock =>
      exact .bind_same (ActAlike.clock clock) fun id => .bind_same (ofReported _) fun b =>
        .bind_same (ofAction id Clock.nowLocal) fun base => makeSingle target base.toMoment b
  | scheduleBlock target base source => exact .bind_same (ofReported _) fun b => makeSingle target base b
  | scheduleBlocks target base sources =>
      exact .bind_same (ofReported _) fun blocks => bind_newList blocks (fun _ _ h => h) fun l =>
        makeMerged target base l blocks
  | scheduleLike target base of => exact scheduleLike target base of
  | add target left right => exact add target left right
  | addTo left right => exact addTo left right
  | compare left right => exact compare left right
  | display of => exact display of
  | isOwnIterator of => exact isOwnIterator of
  | iterate target of clock => exact iterate target of clock
  | iterateBlock target source beginning =>
      exact .bind_same (ActAlike.clock beginning.clock) fun id => .bind_same (ofReported _) fun b =>
        (beginSome target (.block b) (.single b) beginning id).of_imp fun _ _ h => ⟨h, rfl⟩
  | iterateBlocks target sources beginning => exact iterateBlocks target sources beginning
  | skipOutdated target of skip =>
      -- opened first, or the two sides are compared bind by bind
      rw [Workspace.task, Step.task]
      exact copy target of fun _ => ⟨rfl, rfl, fun _ => rfl⟩
  | assumeOffset target of offset =>
      rw [Workspace.task, Step.task]
      exact copy target of fun _ => ⟨rfl, rfl, fun _ => rfl⟩
  | useLocalOffset target of =>
      rw [Workspace.task, Step.task]
      exact copy target of fun _ => ⟨rfl, rfl, fun _ => rfl⟩
  | next of =>
      refine bind_iterator of fun id it clock hr hvalue => ?_
      refine moving hr hvalue (fun s => (it.onlyMoved_next s).configured) fun result moved => ?_
      cases result <;> exact ⟨_, rfl, rfl⟩
  | take of count =>
      refine bind_iterator of fun id it clock hr hvalue => ?_
      refine moving hr hvalue (fun s => (it.onlyMoved_take count.toNat s).configured) fun result moved => ?_
      cases result <;> exact ⟨_, rfl, rfl⟩

end ActAlike

/-! ### Requests -/

/-- The objects of a workspace represent the values of a session. -/
def Workspace.Refines (s : Workspace) (t : Session) : Prop :=
  Represents s.names t.values s.memory t.world

namespace Workspace

variable {s : Workspace} {t : Session}

theorem performStep_refines (h : s.Refines t) (step : Step) :
    (s.performStep step).1 = (t.performStep step).1
      ∧ (s.performStep step).2.Refines (t.performStep step).2 := by
  have htask := ActAlike.task step s.memory t.world h
  rw [performStep, Session.performStep]
  generalize ExceptT.run (task s.names step) s.memory = rs at htask ⊢
  generalize ExceptT.run (step.task t.values) t.world = rt at htask ⊢
  cases htask with
  | error error h => exact ⟨rfl, h⟩
  | @ok o o' m w hsettled =>
      obtain ⟨answer, binding⟩ := o
      obtain ⟨answer', binding'⟩ := o'
      obtain ⟨rfl, hrep⟩ := hsettled
      cases binding <;> cases binding' <;> exact ⟨rfl, hrep⟩

theorem perform_refines (h : s.Refines t) (request : Request) :
    (s.perform request).1 = (t.perform request).1
      ∧ (s.perform request).2.Refines (t.perform request).2 := by
  rw [perform, Session.perform, h.firstUnbound?_eq]
  cases t.values.firstUnbound? request.mentions with
  | none => exact performStep_refines h request.step
  | some name => exact ⟨rfl, h⟩

theorem performAll_refines (h : s.Refines t) (requests : List Request) :
    (performAll requests s).1 = (Session.performAll requests t).1
      ∧ (performAll requests s).2.Refines (Session.performAll requests t).2 := by
  induction requests generalizing s t with
  | nil => exact ⟨rfl, h⟩
  | cons request requests ih =>
      obtain ⟨hanswer, hnext⟩ := perform_refines h request
      obtain ⟨hanswers, hlast⟩ := ih hnext
      exact ⟨congrArg₂ List.cons hanswer hanswers, hlast⟩

/-- From the beginning, objects give every answer that values give, and nothing but a schedule itself ever goes
by its list. -/
theorem performAll_ofHost (host : Host) (vars : Variables) (requests : List Request) :
    (performAll requests (.ofHost host vars)).1 = (Session.performAll requests (.ofHost host vars)).1
      ∧ (performAll requests (.ofHost host vars)).2.memory.Sound := by
  obtain ⟨hanswers, hlast⟩ := performAll_refines (.ofHost host vars) requests
  exact ⟨hanswers, hlast.sound⟩

end Workspace

end Timetable
