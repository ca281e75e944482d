import Timetable.BlockSource
import Timetable.Session.State

/-! # Steps of a session

What can be done in a session, and what is answered.  A step refers to values by their names; where
it makes a value, it says under which name.  A step is asked for in a `Request`, which may mention
more names than the step needs. -/

namespace Timetable

/-- A value to be added: one with a name, or one of another kind, which cannot be added. -/
inductive Operand where
  | named (name : String)
  | plain
deriving DecidableEq, Repr

/-- Where and how an iterator begins. -/
structure Beginning where
  current : Moment
  skipOutdated : Bool
  offset : Option Offset
  clock : Option String
deriving DecidableEq, Repr

/-- One thing to do in a session. -/
inductive Step where
  /-- Makes a manual clock. -/
  | manualClock (target : String) (now : Moment) (failures : Int)
  /-- Sets a manual clock, as far as something is given. -/
  | setClock (of : String) (now : Option Moment) (failures : Option Int)
  /-- Makes a system clock. -/
  | systemClock (target : String) (localOffset : Option Offset)
  /-- Replaces the host. -/
  | replaceHost (host : Host)
  /-- Replaces the variables, and drops the settings that were kept. -/
  | replaceVariables (vars : Variables)
  /-- Asks a clock for the offset of local time. -/
  | localOffset (of : String)
  /-- Asks a clock for the current instant at the local offset. -/
  | nowLocal (of : String)
  /-- Asks a clock for the current instant at an offset. -/
  | now (of : String) (offset : Offset)
  /-- Makes a schedule of a phrase that begins now. -/
  | scheduleNow (target phrase : String) (clock : Option String)
  /-- Makes a schedule of one block. -/
  | scheduleBlock (target : String) (base : Moment) (block : BlockSource)
  /-- Makes a schedule of several blocks. -/
  | scheduleBlocks (target : String) (base : Moment) (blocks : List BlockSource)
  /-- Makes a schedule of the blocks of a merged one. -/
  | scheduleLike (target : String) (base : Moment) (of : String)
  /-- Adds two schedules. -/
  | add (target : String) (left right : Operand)
  /-- Adds a schedule to a named one. -/
  | addTo (left : String) (right : Operand)
  /-- Compares two values. -/
  | compare (left right : String)
  /-- Shows a value. -/
  | display (of : String)
  /-- Asks whether a value is its own iterator. -/
  | isOwnIterator (of : String)
  /-- Makes an iterator over a schedule. -/
  | iterate (target of : String) (clock : Option String)
  /-- Makes an iterator over a block. -/
  | iterateBlock (target : String) (block : BlockSource) (beginning : Beginning)
  /-- Makes an iterator over several blocks. -/
  | iterateBlocks (target : String) (blocks : List BlockSource) (beginning : Beginning)
  /-- Makes a copy of an iterator, told whether to skip what is past. -/
  | skipOutdated (target of : String) (skip : Bool)
  /-- Makes a copy of an iterator, with an assumed offset. -/
  | assumeOffset (target of : String) (offset : Offset)
  /-- Makes a copy of an iterator, without an assumed offset. -/
  | useLocalOffset (target of : String)
  /-- Moves an iterator on. -/
  | next (of : String)
  /-- Moves an iterator on several times. -/
  | take (of : String) (count : Int)
deriving DecidableEq, Repr

/-- A step that is asked for, with the names that are mentioned in asking for it, in the order in
which they are looked up.  The step itself need not use them. -/
structure Request where
  mentions : List String
  step : Step
deriving DecidableEq, Repr

/-- What a step answers. -/
inductive Answer where
  /-- A value as it is now. -/
  | view (view : View)
  /-- A schedule after an addition, and whether it was extended in place. -/
  | extended (schedule : Schedule) (inPlace : Bool)
  | done
  | offset (offset : Offset)
  | now (now : Instant)
  | equal (equal : Bool)
  | ownIterator (own : Bool)
  /-- The next occurrence, and where the iterator stands now. -/
  | next (occurrence current : Instant)
  /-- The next occurrences, and where the iterator stands now. -/
  | taken (occurrences : List Instant) (current : Instant)
  | failed (error : Error)
  /-- An iterator cannot move on, and stands where it says. -/
  | stuck (error : Error) (current : Instant)
deriving DecidableEq, Repr

end Timetable
