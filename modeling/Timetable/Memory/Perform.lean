import Timetable.Memory.State
import Timetable.Session.Perform

/-! # Performing the steps of a session on objects

The steps of a session, as they deal with objects.  Something is copied at three places: a merged schedule
takes a copy of the list that it is made of (`MemoryAction.merge`), so does an iterator
(`MemoryAction.beginIterator`), and a reconfigured iterator is a copy that goes by the list and the clock of
the first one (`MemoryAction.copyIterator`).  Only an addition in place (`MemoryAction.extend`) changes a list,
and only a move (`MemoryAction.move`) changes an iterator. -/

namespace Timetable

/-- Something to do with objects that may fail. -/
abbrev MemoryAction := ExceptT Error (StateM Memory)

/-- What a number refers to, which must be there. -/
def orUnsuitable {α : Type} : Option α → Except Error α
  | some a => .ok a
  | none => .error .unsuitable

namespace MemoryAction

/-- Adds what is reported to the log. -/
def ofReported {α : Type} (c : Reported α) : MemoryAction α := do
  let (result, events) := c.outcome
  modify fun m =>
    { m with surroundings := { m.surroundings with log := m.surroundings.log ++ events.toArray } }
  result

/-- Acts by a clock. -/
def byClock {α : Type} (id : ClockId) (act : StateM Scene α) : MemoryAction α := do
  let m ← get
  let (result, scene) := act.run ⟨m.clock id, m.surroundings⟩
  set { m with clocks := m.clocks.set id scene.clock, surroundings := scene.surroundings }
  return result

/-- Acts by a clock; the action may fail. -/
def ofAction {α : Type} (id : ClockId) (action : Action α) : MemoryAction α := do
  let result ← byClock id action.run
  result

/-! ### New objects -/

/-- Makes a clock. -/
def newClock (clock : Clock) : MemoryAction ClockId := do
  let m ← get
  set { m with clocks := m.clocks ++ [clock] }
  return m.clocks.length

/-- Makes a list. -/
def newList (blocks : List Block) : MemoryAction ListId := do
  let m ← get
  set { m with lists := m.lists ++ [blocks] }
  return m.lists.length

/-- Makes a schedule. -/
def newSchedule (o : ScheduleObject) : MemoryAction ScheduleId := do
  let m ← get
  set { m with schedules := m.schedules ++ [o] }
  return m.schedules.length

/-- Makes an iterator. -/
def newIterator (o : IteratorObject) : MemoryAction IteratorId := do
  let m ← get
  set { m with iterators := m.iterators ++ [o] }
  return m.iterators.length

/-! ### Blocks and lists -/

/-- The blocks in a list. -/
def list (id : ListId) : MemoryAction (List Block) := do
  orUnsuitable (← get).lists[id]?

/-- Makes a list with the blocks of another one. -/
def copyList (id : ListId) : MemoryAction ListId := do
  newList (← list id)

/-- The blocks that are held. -/
def blocksOf : Holding → MemoryAction (List Block)
  | .block b => return [b]
  | .list id => list id

/-- A list of the blocks that are held: the one that is referred to, or else a new one. -/
def listOf : Holding → MemoryAction ListId
  | .block b => newList [b]
  | .list id => return id

/-- Holds the same blocks without sharing a list. -/
def copyHolding : Holding → MemoryAction Holding
  | .block b => return .block b
  | .list id => return .list (← copyList id)

/-! ### Schedules -/

/-- The object that a schedule is. -/
def scheduleObject (id : ScheduleId) : MemoryAction ScheduleObject := do
  orUnsuitable (← get).schedules[id]?

/-- The schedule with a number, with the blocks that it has now. -/
def schedule (id : ScheduleId) : MemoryAction Schedule := do
  orUnsuitable ((← get).schedule? id)

/-- Makes a merged schedule.  It goes by a copy of the list that it is given. -/
def merge (base : Moment) (given : ListId) : MemoryAction ScheduleId := do
  if (← list given).isEmpty then
    throw .nothingToSchedule
  else
    newSchedule ⟨base, .list (← copyList given)⟩

/-- The sum of two schedules. -/
def sum (left right : ScheduleId) : MemoryAction ScheduleId := do
  let a ← scheduleObject left
  let b ← scheduleObject right
  let blocks ← blocksOf a.blocks
  let more ← blocksOf b.blocks
  merge a.base (← newList (blocks ++ more))

/-- Adds the second schedule to the first one.  A merged schedule adds the blocks to its list. -/
def extend (left right : ScheduleId) : MemoryAction ScheduleId := do
  let a ← scheduleObject left
  match a.blocks with
  | .list id =>
    let b ← scheduleObject right
    let more ← blocksOf b.blocks
    modify fun m => { m with lists := m.lists.modify id (· ++ more) }
    return left
  | .block _ => sum left right

/-! ### Iterators -/

/-- The object that an iterator is. -/
def iteratorObject (id : IteratorId) : MemoryAction IteratorObject := do
  orUnsuitable (← get).iterators[id]?

/-- The iterator with a number, with the blocks that it has now. -/
def iterator (id : IteratorId) : MemoryAction Iterator := do
  orUnsuitable ((← get).iterator? id)

/-- Makes an iterator.  It goes by a copy of the list that it is given. -/
def beginIterator (given : Holding) (start : Moment) (skipOutdated : Bool) (offset : Option Offset)
    (clock : ClockId) : MemoryAction IteratorId := do
  if (← blocksOf given).isEmpty then
    throw .nothingToIterate
  else
    let current ← start.aware .start
    newIterator ⟨← copyHolding given, current, skipOutdated, offset, false, clock⟩

/-- Makes a changed copy of an iterator.  It goes by the same list and the same clock. -/
def copyIterator (id : IteratorId) (change : IteratorObject → IteratorObject) :
    MemoryAction IteratorId := do
  let copy ← newIterator (← iteratorObject id)
  modify fun m => { m with iterators := m.iterators.modify copy change }
  return copy

/-- Moves an iterator by its clock, and tells where it stands then. -/
def move {α : Type} (id : IteratorId) (act : Iterator → StateM Scene (α × Iterator)) :
    MemoryAction (α × Instant) := do
  let o ← iteratorObject id
  let it ← iterator id
  let (result, moved) ← byClock o.clock (act it)
  modify fun m =>
    { m with
      iterators := m.iterators.modify id fun o =>
        { o with current := moved.current, reached := moved.reached } }
  return (result, moved.current)

end MemoryAction

namespace Reference

/-- The object as an iterator. -/
def asIterator : Reference → Except Error IteratorId
  | iterator id => .ok id
  | _ => .error .unsuitable

/-- The object as a schedule. -/
def asSchedule : Reference → Except Error ScheduleId
  | schedule id => .ok id
  | _ => .error .unsuitable

/-- The object as a clock. -/
def asClock : Reference → Except Error ClockId
  | clock id => .ok id
  | _ => .error .unsuitable

/-- What can be seen of an object. -/
def view (m : Memory) : Reference → Except Error View
  | iterator id => (orUnsuitable (m.iterator? id)).map .iterator
  | schedule id => (orUnsuitable (m.schedule? id)).map .schedule
  | clock id => .ok (.clock (m.clock id))

end Reference

namespace Names

/-- The clock under a name, or the standard one if no name is given. -/
def clock (names : Names) : Option String → Except Error ClockId
  | none => .ok World.standardClock
  | some name => do (← names.get name).asClock

/-- The first of some names that stands for nothing. -/
def firstUnbound? (names : Names) (mentions : List String) : Option String :=
  mentions.find? fun name => (names name).isNone

/-- The object that an operand is, if it has a name. -/
def operand (names : Names) : Operand → Except Error (Option Reference)
  | .named name => (names.get name).map some
  | .plain => .ok none

end Names

/-- The schedule that an operand is, if it is one. -/
def objectAddend : Option Reference → Except Error ScheduleId
  | some r => r.asSchedule
  | none => .error .unsuitable

/-- Are two objects equal?  Schedules are compared by what they hold; any other object equals itself only. -/
def equalObjects (left right : Reference) : MemoryAction Bool := do
  match left, right with
  | .schedule i, .schedule j =>
    return (← MemoryAction.schedule i).same (← MemoryAction.schedule j)
  | _, _ => return left == right

/-- The answer of a step, and the name it gives to an object, if it does. -/
structure ObjectOutcome where
  answer : Answer
  binding : Option (String × Reference)
deriving DecidableEq, Repr

namespace ObjectOutcome

/-- An answer that names nothing. -/
def tell (answer : Answer) : MemoryAction ObjectOutcome :=
  return ⟨answer, none⟩

/-- A new object under a name.  The answer shows it. -/
def make (target : String) (r : Reference) : MemoryAction ObjectOutcome := do
  let view ← r.view (← get)
  return ⟨.view view, some (target, r)⟩

end ObjectOutcome

namespace Workspace

open MemoryAction ObjectOutcome

/-- Makes a changed copy of an iterator. -/
def copy (names : Names) (target of : String) (change : IteratorObject → IteratorObject) :
    MemoryAction ObjectOutcome := do
  let id ← (← names.get of).asIterator
  make target (.iterator (← copyIterator id change))

/-- Makes an iterator of what is held. -/
def begin (target : String) (given : Holding) (beginning : Beginning) (clock : ClockId) :
    MemoryAction ObjectOutcome := do
  let id ← beginIterator given beginning.current beginning.skipOutdated beginning.offset clock
  make target (.iterator id)

/-- What a step does with the named objects. -/
def task (names : Names) : Step → MemoryAction ObjectOutcome
  | .manualClock target time failures => do
    let id ← newClock (.manual ⟨time, failures, 0⟩)
    make target (.clock id)
  | .setClock of time failures => do
    let id ← (← names.get of).asClock
    let m ← get
    match m.clock id with
    | .system _ => throw .unsuitable
    | .manual c =>
      set { m with clocks := m.clocks.set id (.manual (Step.setManual c time failures)) }
      tell (.view (.clock (.manual (Step.setManual c time failures))))
  | .systemClock target offset => do
    let id ← newClock (.system offset)
    make target (.clock id)
  | .replaceHost host => do
    modify fun m => { m with surroundings := { m.surroundings with host } }
    tell .done
  | .replaceVariables vars => do
    modify fun m =>
      { m with surroundings := { m.surroundings with settings := .ofVariables vars } }
    tell .done
  | .localOffset of => do
    let id ← (← names.get of).asClock
    tell (.offset (← ofAction id Clock.localOffset))
  | .nowLocal of => do
    let id ← (← names.get of).asClock
    tell (.now (← ofAction id Clock.nowLocal))
  | .now of offset => do
    let id ← (← names.get of).asClock
    tell (.now (← ofAction id (Clock.now offset)))
  | .scheduleNow target phrase clock => do
    let id ← names.clock clock
    let block ← ofReported (BlockSource.phrase phrase).build
    let base ← ofAction id Clock.nowLocal
    make target (.schedule (← newSchedule ⟨base.toMoment, .block block⟩))
  | .scheduleBlock target base source => do
    let block ← ofReported source.build
    make target (.schedule (← newSchedule ⟨base, .block block⟩))
  | .scheduleBlocks target base sources => do
    let blocks ← ofReported (sources.mapM BlockSource.build)
    make target (.schedule (← merge base (← newList blocks)))
  | .scheduleLike target base of => do
    let o ← scheduleObject (← (← names.get of).asSchedule)
    make target (.schedule (← merge base (← listOf o.blocks)))
  | .add target left right => do
    let left ← names.operand left
    let right ← names.operand right
    let id ← sum (← objectAddend left) (← objectAddend right)
    make target (.schedule id)
  | .addTo left right => do
    let r ← names.get left
    let right ← names.operand right
    let before ← r.asSchedule
    let after ← extend before (← objectAddend right)
    return ⟨.extended (← schedule after) (after == before), some (left, .schedule after)⟩
  | .compare left right => do
    let a ← names.get left
    let b ← names.get right
    tell (.equal (← equalObjects a b))
  | .display of => do
    let r ← names.get of
    tell (.view (← r.view (← get)))
  | .isOwnIterator of => do
    match ← names.get of with
    | .iterator _ => tell (.ownIterator true)
    | .schedule id => do
      let o ← scheduleObject id
      let _ ← beginIterator o.blocks o.base true none World.standardClock
      tell (.ownIterator false)
    | .clock _ => throw .unsuitable
  | .iterate target of clock => do
    let r ← names.get of
    let id ← names.clock clock
    let o ← scheduleObject (← r.asSchedule)
    make target (.iterator (← beginIterator o.blocks o.base true none id))
  | .iterateBlock target source beginning => do
    let id ← names.clock beginning.clock
    let block ← ofReported source.build
    begin target (.block block) beginning id
  | .iterateBlocks target sources beginning => do
    let id ← names.clock beginning.clock
    let blocks ← ofReported (sources.mapM BlockSource.build)
    begin target (.list (← newList blocks)) beginning id
  | .skipOutdated target of skip => copy names target of ({ · with skipOutdated := skip })
  | .assumeOffset target of offset =>
    copy names target of ({ · with offset := some offset, reached := false })
  | .useLocalOffset target of =>
    copy names target of ({ · with offset := none, reached := false })
  | .next of => do
    let id ← (← names.get of).asIterator
    let (result, current) ← move id Iterator.next
    tell (match result with
      | .ok occurrence => .next occurrence current
      | .error error => .stuck error current)
  | .take of count => do
    let id ← (← names.get of).asIterator
    let (result, current) ← move id (·.take count.toNat)
    tell (match result with
      | .ok occurrences => .taken occurrences current
      | .error error => .stuck error current)

/-- Performs a step: its answer, and the workspace after it. -/
def performStep (s : Workspace) (step : Step) : Answer × Workspace :=
  match (task s.names step).run s.memory with
  | (.ok ⟨answer, some (name, r)⟩, memory) => (answer, ⟨s.names.bind name r, memory⟩)
  | (.ok ⟨answer, none⟩, memory) => (answer, { s with memory })
  | (.error error, memory) => (.failed error, { s with memory })

/-- Performs the step of a request, if all that it mentions stands for something. -/
def perform (s : Workspace) (request : Request) : Answer × Workspace :=
  match s.names.firstUnbound? request.mentions with
  | some name => (.failed (.unbound name), s)
  | none => s.performStep request.step

/-- Performs one request after another. -/
def performAll : List Request → Workspace → List Answer × Workspace
  | [], s => ([], s)
  | request :: requests, s =>
    let (answer, s') := s.perform request
    let (answers, last) := performAll requests s'
    (answer :: answers, last)

end Workspace

end Timetable
