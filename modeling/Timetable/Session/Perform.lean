import Timetable.Session.Step

/-! # Performing the steps of a session

A step reads the named values, acts on the clocks and what surrounds them (a `WorldAction`), and may
in the end give one name to one value (an `Outcome`).  A step that fails names nothing, but what it
did to clocks, settings and log stays.

A request is looked through first: if it mentions a name that stands for nothing, the first such name
is the answer, and the step is not begun (`perform_eq_of_firstUnbound?`). -/

namespace Timetable

/-- Something to do in a world that may fail. -/
abbrev WorldAction := ExceptT Error (StateM World)

namespace WorldAction

/-- Adds what is reported to the log. -/
def ofReported {α : Type} (c : Reported α) : WorldAction α := do
  let (result, events) := c.outcome
  modify fun w =>
    { w with surroundings := { w.surroundings with log := w.surroundings.log ++ events.toArray } }
  result

/-- Acts by a clock. -/
def byClock {α : Type} (id : ClockId) (act : StateM Scene α) : WorldAction α := do
  let w ← get
  let (result, scene) := act.run ⟨w.clock id, w.surroundings⟩
  set { w with clocks := w.clocks.set id scene.clock, surroundings := scene.surroundings }
  return result

/-- Acts by a clock; the action may fail. -/
def ofAction {α : Type} (id : ClockId) (action : Action α) : WorldAction α := do
  let result ← byClock id action.run
  result

/-- Adds a clock. -/
def addClock (clock : Clock) : WorldAction ClockId := do
  let w ← get
  set { w with clocks := w.clocks ++ [clock] }
  return w.clocks.length

/-- The schedule with a number. -/
def schedule (id : ScheduleId) : WorldAction Schedule := do
  (← get).schedule id

/-- Adds a schedule. -/
def addSchedule (s : Schedule) : WorldAction ScheduleId := do
  let w ← get
  set { w with schedules := w.schedules ++ [s] }
  return w.schedules.length

/-- The sum of two schedules, which is a schedule of its own. -/
def sum (left right : ScheduleId) : WorldAction ScheduleId := do
  let a ← schedule left
  let b ← schedule right
  addSchedule (a + b)

/-- Adds the second schedule to the first one.  A merged schedule takes up the blocks and stays the same
one; from a single one, which cannot, a sum of its own is made. -/
def extend (left right : ScheduleId) : WorldAction ScheduleId := do
  let a ← schedule left
  if a.plan.isMerged then
    let b ← schedule right
    modify fun w => { w with schedules := w.schedules.set left (a.extendedBy b) }
    return left
  else
    sum left right

end WorldAction

namespace Value

/-- The value as an iterator with its clock. -/
def asIterator : Value → Except Error (Iterator × ClockId)
  | iterator it id => .ok (it, id)
  | _ => .error .unsuitable

/-- The value as a schedule. -/
def asSchedule : Value → Except Error ScheduleId
  | schedule id => .ok id
  | _ => .error .unsuitable

/-- The value as a clock. -/
def asClock : Value → Except Error ClockId
  | clock id => .ok id
  | _ => .error .unsuitable

end Value

namespace Values

/-- The clock under a name, or the standard one if no name is given. -/
def clock (values : Values) : Option String → Except Error ClockId
  | none => .ok World.standardClock
  | some name => do (← values.get name).asClock

/-- The first of some names that stands for nothing. -/
def firstUnbound? (values : Values) (names : List String) : Option String :=
  names.find? fun name => (values.get? name).isNone

/-- The value of an operand, if it has a name. -/
def operand (values : Values) : Operand → Except Error (Option Value)
  | .named name => (values.get name).map some
  | .plain => .ok none

end Values

/-- The schedule that an operand is, if it is one. -/
def addend : Option Value → Except Error ScheduleId
  | some value => value.asSchedule
  | none => .error .unsuitable

/-- Are two named values equal?  Schedules are compared by what they hold, others by name. -/
def equalValues (left right : String × Value) : WorldAction Bool := do
  match left.2, right.2 with
  | .schedule i, .schedule j => return (← WorldAction.schedule i).same (← WorldAction.schedule j)
  | _, _ => return left.1 == right.1

/-- The answer of a step, and the name it gives to a value, if it does. -/
structure Outcome where
  answer : Answer
  binding : Option (String × Value)
deriving DecidableEq, Repr

namespace Outcome

/-- An answer that names nothing. -/
def tell (answer : Answer) : WorldAction Outcome :=
  return ⟨answer, none⟩

/-- A new value under a name.  The answer shows it. -/
def make (target : String) (value : Value) : WorldAction Outcome := do
  let view ← value.view (← get)
  return ⟨.view view, some (target, value)⟩

/-- A new schedule under a name. -/
def makeSchedule (target : String) (s : Schedule) : WorldAction Outcome := do
  let id ← WorldAction.addSchedule s
  make target (.schedule id)

end Outcome

namespace Step

open WorldAction Outcome

/-- Makes a changed copy of an iterator; the copy goes by the same clock. -/
def copyIterator (values : Values) (target of : String) (change : Iterator → Iterator) :
    WorldAction Outcome := do
  let (it, clock) ← (← values.get of).asIterator
  make target (.iterator (change it) clock)

/-- Makes an iterator over a plan. -/
def beginIterator (target : String) (plan : Plan) (beginning : Beginning) (clock : ClockId) :
    WorldAction Outcome := do
  let it ←
    Iterator.startingAt plan beginning.current beginning.skipOutdated beginning.offset
  make target (.iterator it clock)

/-- Moves a clock that is set by hand. -/
def setManual (m : ManualClock) (now : Option Moment) (failures : Option Int) : ManualClock :=
  { m with now := now.getD m.now, failures := failures.getD m.failures }

/-- What a step does with the named values. -/
def task (values : Values) : Step → WorldAction Outcome
  | manualClock target time failures => do
    let id ← addClock (.manual ⟨time, failures, 0⟩)
    make target (.clock id)
  | setClock of time failures => do
    let id ← (← values.get of).asClock
    let w ← get
    match w.clock id with
    | .system _ => throw .unsuitable
    | .manual m =>
      set { w with clocks := w.clocks.set id (.manual (setManual m time failures)) }
      tell (.view (.clock (.manual (setManual m time failures))))
  | systemClock target offset => do
    let id ← addClock (.system offset)
    make target (.clock id)
  | replaceHost host => do
    modify fun w => { w with surroundings := { w.surroundings with host } }
    tell .done
  | replaceVariables vars => do
    modify fun w =>
      { w with surroundings := { w.surroundings with settings := .ofVariables vars } }
    tell .done
  | localOffset of => do
    let id ← (← values.get of).asClock
    tell (.offset (← ofAction id Clock.localOffset))
  | nowLocal of => do
    let id ← (← values.get of).asClock
    tell (.now (← ofAction id Clock.nowLocal))
  | now of offset => do
    let id ← (← values.get of).asClock
    tell (.now (← ofAction id (Clock.now offset)))
  | scheduleNow target phrase clock => do
    let id ← values.clock clock
    let block ← ofReported (BlockSource.phrase phrase).build
    let base ← ofAction id Clock.nowLocal
    makeSchedule target ⟨base.toMoment, .single block⟩
  | scheduleBlock target base source => do
    let block ← ofReported source.build
    makeSchedule target ⟨base, .single block⟩
  | scheduleBlocks target base sources => do
    let blocks ← ofReported (sources.mapM BlockSource.build)
    makeSchedule target (← Schedule.ofBlocks base blocks)
  | scheduleLike target base of => do
    let s ← schedule (← (← values.get of).asSchedule)
    makeSchedule target (← Schedule.ofBlocks base s.plan.blocks)
  | add target left right => do
    let left ← values.operand left
    let right ← values.operand right
    let id ← sum (← addend left) (← addend right)
    make target (.schedule id)
  | addTo left right => do
    let value ← values.get left
    let right ← values.operand right
    let before ← value.asSchedule
    let after ← extend before (← addend right)
    return ⟨.extended (← schedule after) (after == before), some (left, .schedule after)⟩
  | compare left right => do
    let a ← values.get left
    let b ← values.get right
    tell (.equal (← equalValues (left, a) (right, b)))
  | display of => do
    let value ← values.get of
    tell (.view (← value.view (← get)))
  | isOwnIterator of => do
    match ← values.get of with
    | .iterator _ _ => tell (.ownIterator true)
    | .schedule id => do
      let _ ← (← schedule id).iterator
      tell (.ownIterator false)
    | .clock _ => throw .unsuitable
  | iterate target of clock => do
    let value ← values.get of
    let id ← values.clock clock
    let s ← schedule (← value.asSchedule)
    make target (.iterator (← s.iterator) id)
  | iterateBlock target source beginning => do
    let id ← values.clock beginning.clock
    let block ← ofReported source.build
    beginIterator target (.single block) beginning id
  | iterateBlocks target sources beginning => do
    let id ← values.clock beginning.clock
    let blocks ← ofReported (sources.mapM BlockSource.build)
    match Plan.ofBlocks? blocks with
    | none => throw .nothingToIterate
    | some plan => beginIterator target plan beginning id
  | skipOutdated target of skip => copyIterator values target of (·.withSkipOutdated skip)
  | assumeOffset target of offset => copyIterator values target of (·.assumeOffset offset)
  | useLocalOffset target of => copyIterator values target of Iterator.useLocalOffset
  | next of => do
    let (it, clock) ← (← values.get of).asIterator
    let (result, moved) ← byClock clock it.next
    let answer := match result with
      | .ok occurrence => Answer.next occurrence moved.current
      | .error error => Answer.stuck error moved.current
    return ⟨answer, some (of, .iterator moved clock)⟩
  | take of count => do
    let (it, clock) ← (← values.get of).asIterator
    let (result, moved) ← byClock clock (it.take count.toNat)
    let answer := match result with
      | .ok occurrences => Answer.taken occurrences moved.current
      | .error error => Answer.stuck error moved.current
    return ⟨answer, some (of, .iterator moved clock)⟩

end Step

namespace Session

/-- Performs a step: its answer, and the session after it. -/
def performStep (s : Session) (step : Step) : Answer × Session :=
  match (step.task s.values).run s.world with
  | (.ok ⟨answer, some (name, value)⟩, world) => (answer, ⟨s.values.bind name value, world⟩)
  | (.ok ⟨answer, none⟩, world) => (answer, { s with world })
  | (.error error, world) => (.failed error, { s with world })

/-- Performs the step of a request, if all that it mentions stands for something. -/
def perform (s : Session) (request : Request) : Answer × Session :=
  match s.values.firstUnbound? request.mentions with
  | some name => (.failed (.unbound name), s)
  | none => s.performStep request.step

theorem perform_eq_of_firstUnbound? {s : Session} {request : Request} {name : String}
    (h : s.values.firstUnbound? request.mentions = some name) :
    s.perform request = (.failed (.unbound name), s) := by
  simp [perform, h]

/-- Performs one request after another. -/
def performAll : List Request → Session → List Answer × Session
  | [], s => ([], s)
  | request :: requests, s =>
    let (answer, s') := s.perform request
    let (answers, last) := performAll requests s'
    (answer :: answers, last)

end Session

end Timetable
