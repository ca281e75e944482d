import Timetable.Session.State

/-! # Objects and what they share

Schedules, iterators, clocks and lists of blocks as objects with numbers.  A name stands for an object, a
merged schedule and an iterator over several blocks refer to a list, and an iterator refers to a clock; so
it can be told whether two objects are one and the same, whether two go by the same list, and what else
changes if one is changed.

A `Session` has none of this for lists and iterators: there an iterator is a value, and every schedule and
iterator has its blocks to itself. -/

namespace Timetable

/-- The number of a list of blocks. -/
abbrev ListId := Nat

/-- The number of an iterator. -/
abbrev IteratorId := Nat

/-- The blocks of an object: a single one, or those of a list. -/
inductive Holding where
  | block (b : Block)
  | list (id : ListId)
deriving DecidableEq, Repr

/-- A schedule as an object. -/
structure ScheduleObject where
  base : Moment
  blocks : Holding
deriving DecidableEq, Repr

/-- An iterator as an object. -/
structure IteratorObject where
  blocks : Holding
  current : Instant
  skipOutdated : Bool
  offset : Option Offset
  /-- Has a step reached the cursor since the offset was last told? -/
  reached : Bool
  clock : ClockId
deriving DecidableEq, Repr

/-- The iterator that an object is, if its blocks make up the given plan. -/
def IteratorObject.withPlan (o : IteratorObject) (plan : Plan) : Iterator :=
  ⟨plan, o.current, o.skipOutdated, o.offset, o.reached⟩

/-- All objects, each under its number, and what surrounds them. -/
structure Memory where
  clocks : List Clock
  lists : List (List Block)
  schedules : List ScheduleObject
  iterators : List IteratorObject
  surroundings : Surroundings
deriving DecidableEq, Repr

namespace Memory

/-- No object but the system clock. -/
def ofHost (host : Host) (vars : Variables) : Memory :=
  ⟨[.system none], [], [], [], ⟨host, .ofVariables vars, #[]⟩⟩

/-- The clock with a number. -/
def clock (m : Memory) (id : ClockId) : Clock :=
  m.clocks.getD id (.system none)

/-- The plan that blocks make up, if they are there. -/
def plan? (m : Memory) : Holding → Option Plan
  | .block b => some (.single b)
  | .list id => m.lists[id]?.bind Plan.ofBlocks?

/-- The schedule with a number, with the blocks that it has now. -/
def schedule? (m : Memory) (id : ScheduleId) : Option Schedule := do
  let o ← m.schedules[id]?
  let plan ← m.plan? o.blocks
  return ⟨o.base, plan⟩

/-- The iterator with a number, with the blocks that it has now. -/
def iterator? (m : Memory) (id : IteratorId) : Option Iterator := do
  let o ← m.iterators[id]?
  let plan ← m.plan? o.blocks
  return o.withPlan plan

end Memory

/-- An object that can have a name. -/
inductive Reference where
  | iterator (iterator : IteratorId)
  | schedule (schedule : ScheduleId)
  | clock (clock : ClockId)
deriving DecidableEq, Repr

/-- What names stand for. -/
abbrev Names := String → Option Reference

namespace Names

/-- Gives a name to an object. -/
def bind (names : Names) (name : String) (r : Reference) : Names :=
  fun other => if other = name then some r else names other

/-- The object under a name. -/
def get (names : Names) (name : String) : Except Error Reference :=
  match names name with
  | some r => .ok r
  | none => .error (.unbound name)

end Names

/-- Names, and the objects for which they stand. -/
structure Workspace where
  names : Names
  memory : Memory

/-- A workspace in which nothing has a name yet. -/
def Workspace.ofHost (host : Host) (vars : Variables) : Workspace :=
  ⟨fun _ => none, .ofHost host vars⟩

end Timetable
