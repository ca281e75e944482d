import Timetable.Calendar.Weekday
import Timetable.Calendar.TimeOfDay

/-! # Blocks

A block says when something happens: at certain times of day, on certain weekdays or on every day,
and, if it says so, in weeks of one parity only.  A weekday entry stands for every such weekday, or
for one of them in each month.  A block always has a time, and its list of weekdays, if there is
one, is not empty; `Block.ofParts` refuses anything else. -/

namespace Timetable

/-- Which of the occurrences of a weekday within a month. -/
inductive Modifier where
  | first
  | second
  | third
  | fourth
  | last
deriving DecidableEq, Repr

/-- Even or odd, said of the number of a week. -/
inductive Parity where
  | even
  | odd
deriving DecidableEq, Repr

/-- A weekday, or one of its occurrences in each month. -/
structure Entry where
  weekday : Weekday
  modifier : Option Modifier
deriving DecidableEq, Repr

/-- Times of day, with the weekdays and the weeks to which they are restricted. -/
structure Block where
  times : List TimeOfDay
  days : Option (List Entry)
  weeks : Option Parity
  times_ne : times ≠ []
  days_ne : days ≠ some []
deriving DecidableEq, Repr

/-- Why a block cannot be made of its parts. -/
inductive BlockError where
  | noSuchWeekday (index : Int)
  | noTimes
  | noDays
deriving DecidableEq, Repr

namespace Modifier

/-- The number of the occurrence, counted from the start of the month. -/
def ordinal? : Modifier → Option Nat
  | first => some 1
  | second => some 2
  | third => some 3
  | fourth => some 4
  | last => none

/-- The word for the occurrence. -/
def word : Modifier → String
  | first => "first"
  | second => "second"
  | third => "third"
  | fourth => "fourth"
  | last => "last"

end Modifier

namespace Parity

/-- The word for the parity. -/
def word : Parity → String
  | even => "even"
  | odd => "odd"

/-- Does a number have the parity? -/
def holds (p : Parity) (n : Nat) : Bool :=
  match p with
  | even => n % 2 == 0
  | odd => n % 2 == 1

end Parity

namespace BlockError

/-- The error in words. -/
def message : BlockError → String
  | noSuchWeekday index => "weekday must be between 0 and 6: " ++ toString index
  | noTimes => "a block must contain at least one time of day"
  | noDays => "weekdays must not be empty when present"

end BlockError

/-- The entry for a weekday given by its index. -/
def Entry.ofIndex (index : Int) (modifier : Option Modifier) : Except BlockError Entry :=
  match Weekday.ofIndex? index with
  | some weekday => .ok ⟨weekday, modifier⟩
  | none => .error (.noSuchWeekday index)

/-- The block with the given parts.  A missing time is found before a missing weekday. -/
def Block.ofParts (times : List TimeOfDay) (days : Option (List Entry)) (weeks : Option Parity) :
    Except BlockError Block :=
  if ht : times = [] then .error .noTimes
  else if hd : days = some [] then .error .noDays
  else .ok ⟨times, days, weeks, ht, hd⟩

end Timetable
