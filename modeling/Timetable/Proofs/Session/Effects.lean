import Timetable.Proofs.Session.Moves
import Timetable.Proofs.Session.Sums

/-! # What a step changes

A step gives at most one name to a value (`Step.target?`), and a schedule that it names is a new one; the
schedules that there are stay as they are.  The one exception is a merged schedule that another one is added
to (`Session.Effect`, `Session.performStep_effect`). -/

namespace Timetable

/-- The name that a step may give to a value. -/
def Step.target? : Step → Option String
  | manualClock target _ _ | systemClock target _ | scheduleNow target _ _ | scheduleBlock target _ _
  | scheduleBlocks target _ _ | scheduleLike target _ _ | add target _ _ | iterate target _ _
  | iterateBlock target _ _ | iterateBlocks target _ _ | skipOutdated target _ _
  | assumeOffset target _ _ | useLocalOffset target _ => some target
  | addTo left _ => some left
  | next of | take of _ => some of
  | setClock _ _ _ | replaceHost _ | replaceVariables _ | localOffset _ | nowLocal _ | now _ _
  | compare _ _ | display _ | isOwnIterator _ => none

/-- Does the answer tell that a step has failed, and has not even tried to move an iterator? -/
def Answer.isFailed : Answer → Bool
  | failed _ => true
  | _ => false

instance : IsPreorder World World.KeepsSchedules where
  refl _ := List.prefix_rfl
  trans _ _ _ h h' := List.IsPrefix.trans h h'

/-! ### Actions that keep the schedules -/

namespace WorldAction

open Timetable.Action World

variable {α : Type}

theorem leads_get : Leads KeepsSchedules (get : WorldAction World) :=
  fun _ => List.prefix_rfl

theorem leads_modify {f : World → World} (h : ∀ w, (f w).schedules = w.schedules) :
    Leads KeepsSchedules (modify f : WorldAction Unit) := by
  intro w
  show w.schedules <+: (f w).schedules
  rw [h]

theorem leads_ofReported (c : Reported α) : Leads KeepsSchedules (ofReported c) :=
  .bind (leads_modify fun _ => rfl) fun _ => .lift _

theorem leads_byClock (id : ClockId) (act : StateM Scene α) :
    Leads KeepsSchedules (byClock id act) :=
  fun _ => List.prefix_rfl

theorem leads_ofAction (id : ClockId) (action : Action α) : Leads KeepsSchedules (ofAction id action) :=
  .bind (leads_byClock id action.run) fun _ => .lift _

theorem leads_addClock (clock : Clock) : Leads KeepsSchedules (addClock clock) :=
  fun _ => List.prefix_rfl

theorem leads_schedule (id : ScheduleId) : Leads KeepsSchedules (schedule id) :=
  .bind leads_get fun _ => .lift _

theorem leads_equalValues (left right : String × Value) :
    Leads KeepsSchedules (equalValues left right) := by
  unfold equalValues
  split
  · exact .bind (leads_schedule _) fun _ => .bind (leads_schedule _) fun _ => .pure _
  · exact .pure _

end WorldAction

/-! ### Tasks -/

/-- The outcome is no failure, and if it gives a name then this one; a schedule gets it only if it is one of
those that are new in the second world. -/
structure Outcome.Names (target : Option String) (w w' : World) (o : Outcome) : Prop where
  answer : o.answer.isFailed = false
  target : ∀ name value, o.binding = some (name, value) → target = some name
  new : ∀ name i, o.binding = some (name, .schedule i) →
    w.schedules.length ≤ i ∧ i < w'.schedules.length

/-- The action keeps the schedules that there are, and names nothing else. -/
structure WorldAction.Makes (target : Option String) (x : WorldAction Outcome) : Prop where
  keeps : Action.Leads World.KeepsSchedules x
  names : ∀ w o, (ExceptT.run x w).1 = .ok o → o.Names target w (ExceptT.run x w).2

namespace WorldAction.Makes

open Timetable.Action World

variable {α : Type} {target : String} {named : Option String}

theorem bind {x : WorldAction α} {f : α → WorldAction Outcome} (hx : Leads KeepsSchedules x)
    (hf : ∀ a, Makes named (f a)) : Makes named (x >>= f) where
  keeps := hx.bind fun a => (hf a).keeps
  names w o h := by
    have hw := (hx w).length_le
    rw [run_bind] at h ⊢
    cases hrun : ExceptT.run x w with
    | mk result w' =>
        rw [hrun] at h hw
        cases result with
        | error error => cases h
        | ok a =>
            obtain ⟨hanswer, htarget, hnew⟩ := (hf a).names w' o h
            exact ⟨hanswer, htarget, fun name i hi => ⟨hw.trans (hnew name i hi).1, (hnew name i hi).2⟩⟩

theorem pure {o : Outcome} (hanswer : o.answer.isFailed = false)
    (hbinding : ∀ name value, o.binding = some (name, value) →
      named = some name ∧ ∀ i, value ≠ .schedule i) : Makes named (Pure.pure o) where
  keeps := .pure o
  names w o' h := by
    obtain rfl := Except.ok.inj h
    exact ⟨hanswer, fun name value hvalue => (hbinding name value hvalue).1,
      fun name i hi => absurd rfl ((hbinding name _ hi).2 i)⟩

theorem tell {answer : Answer} (hanswer : answer.isFailed = false) :
    Makes named (Outcome.tell answer) := by
  refine .pure (o := ⟨answer, none⟩) hanswer ?_
  rintro name value ⟨⟩

theorem throw (error : Error) : Makes named (MonadExcept.throw error : WorldAction Outcome) where
  keeps w := refl_of KeepsSchedules w
  names w o h := by
    cases h

theorem make {value : Value} (hvalue : ∀ i, value ≠ .schedule i) :
    Makes (some target) (Outcome.make target value) := by
  refine .bind leads_get fun w => .bind (.lift _) fun view => .pure rfl ?_
  rintro name _ ⟨⟩
  exact ⟨rfl, hvalue⟩

/-- A schedule that has just been added gets the name. -/
theorem addSchedule (a : Schedule) :
    Makes (some target) (WorldAction.addSchedule a >>= fun i => Outcome.make target (.schedule i)) := by
  have hrun : ∀ w, ExceptT.run (WorldAction.addSchedule a >>= fun i => Outcome.make target (.schedule i)) w
      = (.ok ⟨.view (.schedule a), some (target, .schedule w.schedules.length)⟩, w.withSchedule a) :=
    fun w => Session.make_schedule_run (w.schedule_withSchedule a)
  constructor
  · intro w
    rw [hrun]
    exact (w.extends_withSchedule a).schedules
  · intro w o h
    rw [hrun] at h ⊢
    obtain rfl := Except.ok.inj h
    refine ⟨rfl, ?_, ?_⟩
    · rintro name value ⟨⟩
      rfl
    · rintro name i ⟨⟩
      simp [withSchedule]

theorem sum (i j : ScheduleId) :
    Makes (some target) (WorldAction.sum i j >>= fun k => Outcome.make target (.schedule k)) := by
  unfold WorldAction.sum
  simp only [bind_assoc]
  exact .bind (leads_schedule i) fun a => .bind (leads_schedule j) fun b => addSchedule (a + b)

theorem copyIterator (values : Values) (of : String) (change : Iterator → Iterator) :
    Makes (some target) (Step.copyIterator values target of change) :=
  .bind (.lift _) fun _ => .bind (.lift _) fun _ => make nofun

theorem beginIterator (plan : Plan) (beginning : Beginning) (clock : ClockId) :
    Makes (some target) (Step.beginIterator target plan beginning clock) :=
  .bind (.lift _) fun _ => make nofun

theorem setClock (values : Values) (of : String) (now : Option Moment) (failures : Option Int) :
    Makes named (Step.task values (.setClock of now failures)) := by
  have hget : ∀ w, ExceptT.run (get : WorldAction World) w = (.ok w, w) := fun _ => rfl
  refine .bind (.lift _) fun value => .bind (.lift _) fun id => ⟨fun w => ?_, fun w o h => ?_⟩
  · rw [run_bind_of_ok (hget w)]
    cases w.clock id <;> exact List.prefix_rfl
  · rw [run_bind_of_ok (hget w)] at h ⊢
    cases hclock : w.clock id with
    | system offset => rw [hclock] at h; cases h
    | manual m =>
        rw [hclock] at h
        cases h
        refine ⟨rfl, ?_, ?_⟩
        · rintro name value ⟨⟩
        · rintro name i ⟨⟩

theorem task (values : Values) {step : Step} (h : ∀ left right, step ≠ .addTo left right) :
    Makes step.target? (step.task values) := by
  cases step with
  | manualClock target now failures => exact .bind (leads_addClock _) fun _ => make nofun
  | setClock of now failures => exact setClock values of now failures
  | systemClock target offset => exact .bind (leads_addClock _) fun _ => make nofun
  | replaceHost host => exact .bind (leads_modify fun _ => rfl) fun _ => tell rfl
  | replaceVariables vars => exact .bind (leads_modify fun _ => rfl) fun _ => tell rfl
  | localOffset of =>
      exact .bind (.lift _) fun _ => .bind (.lift _) fun _ => .bind (leads_ofAction _ _) fun _ => tell rfl
  | nowLocal of =>
      exact .bind (.lift _) fun _ => .bind (.lift _) fun _ => .bind (leads_ofAction _ _) fun _ => tell rfl
  | now of offset =>
      exact .bind (.lift _) fun _ => .bind (.lift _) fun _ => .bind (leads_ofAction _ _) fun _ => tell rfl
  | scheduleNow target phrase clock =>
      exact .bind (.lift _) fun _ => .bind (leads_ofReported _) fun _ => .bind (leads_ofAction _ _) fun _ =>
        addSchedule _
  | scheduleBlock target base source => exact .bind (leads_ofReported _) fun _ => addSchedule _
  | scheduleBlocks target base sources =>
      exact .bind (leads_ofReported _) fun _ => .bind (.lift _) fun _ => addSchedule _
  | scheduleLike target base of =>
      exact .bind (.lift _) fun _ => .bind (.lift _) fun _ => .bind (leads_schedule _) fun _ =>
        .bind (.lift _) fun _ => addSchedule _
  | add target left right =>
      exact .bind (.lift _) fun _ => .bind (.lift _) fun _ => .bind (.lift _) fun _ => .bind (.lift _) fun _ =>
        sum _ _
  | addTo left right => exact absurd rfl (h left right)
  | compare left right =>
      exact .bind (.lift _) fun _ => .bind (.lift _) fun _ => .bind (leads_equalValues _ _) fun _ => tell rfl
  | display of =>
      exact .bind (.lift _) fun _ => .bind leads_get fun _ => .bind (.lift _) fun _ => tell rfl
  | isOwnIterator of =>
      refine .bind (.lift _) fun value => ?_
      cases value with
      | iterator it clock => exact tell rfl
      | schedule i => exact .bind (leads_schedule i) fun _ => .bind (.lift _) fun _ => tell rfl
      | clock clock => exact .throw _
  | iterate target of clock =>
      exact .bind (.lift _) fun _ => .bind (.lift _) fun _ => .bind (.lift _) fun _ =>
        .bind (leads_schedule _) fun _ => .bind (.lift _) fun _ => make nofun
  | iterateBlock target source beginning =>
      exact .bind (.lift _) fun _ => .bind (leads_ofReported _) fun _ => beginIterator _ _ _
  | iterateBlocks target sources beginning =>
      refine .bind (.lift _) fun clock => .bind (leads_ofReported _) fun blocks => ?_
      cases Plan.ofBlocks? blocks with
      | none => exact .throw _
      | some plan => exact beginIterator plan beginning clock
  | skipOutdated target of skip => exact copyIterator values of (·.withSkipOutdated skip)
  | assumeOffset target of offset => exact copyIterator values of (·.assumeOffset offset)
  | useLocalOffset target of => exact copyIterator values of Iterator.useLocalOffset
  | next of =>
      refine .bind (.lift _) fun _ => .bind (.lift _) fun _ => .bind (leads_byClock _ _) fun result => ?_
      refine .pure ?_ ?_
      · obtain ⟨result, moved⟩ := result
        cases result <;> rfl
      · rintro name _ ⟨⟩
        exact ⟨rfl, nofun⟩
  | take of count =>
      refine .bind (.lift _) fun _ => .bind (.lift _) fun _ => .bind (leads_byClock _ _) fun result => ?_
      refine .pure ?_ ?_
      · obtain ⟨result, moved⟩ := result
        cases result <;> rfl
      · rintro name _ ⟨⟩
        exact ⟨rfl, nofun⟩

end WorldAction.Makes

/-! ### Steps -/

namespace Session

/-- What a step makes of a session, and what is answered. -/
inductive Effect (s : Session) (step : Step) : Answer → Session → Prop where
  /-- The step fails, and nothing is changed. -/
  | idle (error : Error) : Effect s step (.failed error) s
  /-- No name is given. -/
  | nameless (answer : Answer) {w : World} (hw : s.world.KeepsSchedules w)
      (hstep : ∀ left right, step ≠ .addTo left right) : Effect s step answer { s with world := w }
  /-- A name is given to an iterator, to a clock or to a new schedule. -/
  | naming {answer : Answer} {name : String} {value : Value} {w : World}
      (hw : s.world.KeepsSchedules w) (hanswer : answer.isFailed = false)
      (htarget : step.target? = some name)
      (hnew : ∀ i, value = .schedule i → s.world.schedules.length ≤ i ∧ i < w.schedules.length)
      (hsingle : ∀ left right i a, step = .addTo left right → s.values.get? left = some (.schedule i) →
        s.world.schedule i = .ok a → a.plan.isMerged = false) :
      Effect s step answer ⟨s.values.bind name value, w⟩
  /-- A schedule is added to a merged one. -/
  | addition {left : String} {right : Operand} {m r : ScheduleId} {a b : Schedule}
      (hstep : step = .addTo left right) (hleft : s.values.get? left = some (.schedule m))
      (hright : s.values.operand right = .ok (some (.schedule r))) (ha : s.world.schedule m = .ok a)
      (hmerged : a.plan.isMerged = true) (hb : s.world.schedule r = .ok b) :
      Effect s step (.extended (a + b) true)
        ⟨s.values.bind left (.schedule m), s.world.withScheduleAt m (a + b)⟩

variable {s : Session} {step : Step} {left : String} {right : Operand}

theorem effect_of_makes (hstep : ∀ left right, step ≠ .addTo left right)
    (h : WorldAction.Makes step.target? (step.task s.values)) : s.Effect step (s.performStep step).1
      (s.performStep step).2 := by
  have hw := h.keeps s.world
  have hnames := h.names s.world
  rw [performStep]
  generalize ExceptT.run (step.task s.values) s.world = run at hw hnames ⊢
  obtain ⟨result, w⟩ := run
  cases result with
  | error error => exact .nameless _ hw hstep
  | ok o =>
      obtain ⟨hanswer, htarget, hnew⟩ := hnames o rfl
      obtain ⟨answer, _ | ⟨name, value⟩⟩ := o
      · exact .nameless _ hw hstep
      · exact .naming hw hanswer (htarget name value rfl) (fun i hi => hnew name i (by rw [hi]))
          fun left right _ _ h => absurd h (hstep left right)

theorem effect_of_error (error : Error)
    (h : ExceptT.run (step.task s.values) s.world = (.error error, s.world)) :
    s.Effect step (s.performStep step).1 (s.performStep step).2 := by
  rw [performStep, h]
  exact .idle _

/-- To a single schedule nothing can be added in place: the name gets a new schedule. -/
theorem performStep_addTo_of_single {m r : ScheduleId} {a b : Schedule}
    (hleft : s.values.get? left = some (.schedule m))
    (hright : s.values.operand right = .ok (some (.schedule r)))
    (ha : s.world.schedule m = .ok a) (hmerged : a.plan.isMerged = false)
    (hb : s.world.schedule r = .ok b) :
    ∃ inPlace, s.performStep (.addTo left right) = (.extended (a + b) inPlace,
      ⟨s.values.bind left (.schedule s.world.schedules.length), s.world.withSchedule (a + b)⟩) := by
  have hsum : ExceptT.run (WorldAction.extend m r) s.world
      = (.ok s.world.schedules.length, s.world.withSchedule (a + b)) := by
    rw [WorldAction.extend, Action.run_bind_of_ok (WorldAction.schedule_run ha), hmerged]
    exact WorldAction.sum_run ha hb
  have hafter := WorldAction.schedule_run (s.world.schedule_withSchedule (a + b))
  have hrun : ((Step.addTo left right).task s.values).run s.world
      = (.ok ⟨.extended (a + b) (s.world.schedules.length == m),
          some (left, .schedule s.world.schedules.length)⟩, s.world.withSchedule (a + b)) := by
    rw [Step.task, Values.get, hleft, hright]
    change ExceptT.run (WorldAction.extend m r >>= _) s.world = _
    rw [Action.run_bind_of_ok hsum, Action.run_bind_of_ok hafter]
    rfl
  rw [performStep, hrun]
  exact ⟨_, rfl⟩

theorem extend_run_of_error {w : World} {m r : ScheduleId} {error : Error}
    (h : w.schedule m = .error error ∨ (∃ a, w.schedule m = .ok a) ∧ w.schedule r = .error error) :
    ExceptT.run (WorldAction.extend m r) w = (.error error, w) := by
  have hrun : ∀ i, ExceptT.run (WorldAction.schedule i) w = (w.schedule i, w) :=
    fun i => Action.run_lift (w.schedule i) w
  obtain hm | ⟨⟨a, ha⟩, hr⟩ := h
  · rw [WorldAction.extend, Action.run_bind, hrun, hm]
  · rw [WorldAction.extend, Action.run_bind_of_ok (WorldAction.schedule_run ha)]
    split
    · rw [Action.run_bind, hrun, hr]
    · rw [WorldAction.sum, Action.run_bind_of_ok (WorldAction.schedule_run ha), Action.run_bind, hrun, hr]

theorem addTo_effect_of_schedules {m r : ScheduleId} (hleft : s.values.get? left = some (.schedule m))
    (hright : s.values.operand right = .ok (some (.schedule r))) :
    s.Effect (.addTo left right) (s.performStep (.addTo left right)).1
      (s.performStep (.addTo left right)).2 := by
  have hfailed : ∀ error, (s.world.schedule m = .error error
        ∨ (∃ a, s.world.schedule m = .ok a) ∧ s.world.schedule r = .error error) →
      s.Effect (.addTo left right) (s.performStep (.addTo left right)).1
        (s.performStep (.addTo left right)).2 := by
    intro error h
    refine effect_of_error error ?_
    rw [Step.task, Values.get, hleft, hright]
    change ExceptT.run (WorldAction.extend m r >>= _) s.world = _
    rw [Action.run_bind, extend_run_of_error h]
  cases ha : s.world.schedule m with
  | error error => exact hfailed error (.inl ha)
  | ok a =>
      cases hb : s.world.schedule r with
      | error error => exact hfailed error (.inr ⟨⟨a, ha⟩, hb⟩)
      | ok b =>
          cases hmerged : a.plan.isMerged with
          | true =>
              rw [performStep_addTo hleft hright ha hmerged hb]
              exact .addition rfl hleft hright ha hmerged hb
          | false =>
              obtain ⟨inPlace, hstep⟩ := performStep_addTo_of_single hleft hright ha hmerged hb
              rw [hstep]
              refine .naming (s.world.extends_withSchedule _).schedules rfl rfl ?_ ?_
              · rintro i ⟨⟩
                simp [World.withSchedule]
              · rintro left' right' i a' ⟨⟩ hleft' ha'
                obtain rfl : m = i := Value.schedule.inj (Option.some.inj (hleft.symm.trans hleft'))
                rw [← Except.ok.inj (ha.symm.trans ha'), hmerged]

theorem addTo_effect (s : Session) (left : String) (right : Operand) :
    s.Effect (.addTo left right) (s.performStep (.addTo left right)).1
      (s.performStep (.addTo left right)).2 := by
  cases hleft : s.values.get? left with
  | none =>
      refine effect_of_error (.unbound left) ?_
      rw [Step.task, Values.get, hleft]
      rfl
  | some value =>
      cases hright : s.values.operand right with
      | error error =>
          refine effect_of_error error ?_
          rw [Step.task, Values.get, hleft, hright]
          rfl
      | ok operand =>
          cases value with
          | iterator | clock =>
              refine effect_of_error .unsuitable ?_
              rw [Step.task, Values.get, hleft, hright]
              rfl
          | schedule m =>
              by_cases hoperand : ∃ r, operand = some (.schedule r)
              · obtain ⟨r, rfl⟩ := hoperand
                exact addTo_effect_of_schedules hleft hright
              · rw [performStep_addTo_of_unsuitable hleft hright fun r hr => hoperand ⟨r, hr⟩]
                exact .idle _

/-- Each step does one of these. -/
theorem performStep_effect (s : Session) (step : Step) :
    s.Effect step (s.performStep step).1 (s.performStep step).2 := by
  cases step with
  | addTo left right => exact addTo_effect s left right
  | _ => exact effect_of_makes nofun (.task s.values nofun)

end Session

end Timetable
