import Timetable.Calendar.Date
import Timetable.Calendar.Offset

/-! # Instants

An instant is a date and a time of day at some offset from UTC.  Two instants are compared by their
places on the time line of UTC (`Instant.position`), which a change of offset keeps: `inOffset?`
writes the same moment at another offset, if both UTC and the new local time stay within the years
1 to 9999.  A `Moment` is a date and a time of day of which the offset may be unknown. -/

namespace Timetable

/-- A date and a time of day at an offset from UTC. -/
structure Instant where
  date : Date
  time : TimeOfDay
  offset : Offset
deriving DecidableEq, Repr

namespace Instant

/-- The place of the local date and time on its own time line, in microseconds. -/
def localPosition (i : Instant) : Nat :=
  i.date.number * microsPerDay + i.time.micros

/-- The place on the time line of UTC, in microseconds. -/
def position (i : Instant) : Int :=
  i.localPosition - i.offset.micros

/-- Earlier on the time line, whatever the offsets. -/
instance : LT Instant := ⟨fun i j => i.position < j.position⟩

/-- Not later on the time line. -/
instance : LE Instant := ⟨fun i j => i.position ≤ j.position⟩

theorem lt_iff {i j : Instant} : i < j ↔ i.position < j.position := Iff.rfl

theorem le_iff {i j : Instant} : i ≤ j ↔ i.position ≤ j.position := Iff.rfl

instance (i j : Instant) : Decidable (i < j) := inferInstanceAs (Decidable (i.position < j.position))

instance (i j : Instant) : Decidable (i ≤ j) := inferInstanceAs (Decidable (i.position ≤ j.position))

/-- The two instants are the same moment, perhaps written at different offsets. -/
def sameMoment (i j : Instant) : Bool :=
  i.position == j.position

/-- Is a place on a time line within the years 1 to 9999? -/
def inCalendar (position : Int) : Bool :=
  decide ((microsPerDay : Int) ≤ position)
    && decide (position < (lastDay + 1) * (microsPerDay : Int))

/-- The instant at a place on the local time line of an offset. -/
def ofLocalPosition? (position : Int) (offset : Offset) : Option Instant :=
  if 0 ≤ position then
    (Date.ofNumber? (position.toNat / microsPerDay)).map fun date =>
      ⟨date, ⟨position.toNat % microsPerDay, Nat.mod_lt _ (by decide)⟩, offset⟩
  else none

/-- The same moment, written at another offset. -/
def inOffset? (i : Instant) (offset : Offset) : Option Instant :=
  if inCalendar i.position then ofLocalPosition? (i.position + offset.micros) offset else none

end Instant

/-- A date and a time of day, with the offset from UTC if that is known. -/
structure Moment where
  date : Date
  time : TimeOfDay
  offset : Option Offset
deriving DecidableEq, Repr

namespace Moment

/-- The instant, if the offset is known. -/
def instant? (m : Moment) : Option Instant :=
  m.offset.map fun offset => ⟨m.date, m.time, offset⟩

/-- The instant, UTC being assumed where the offset is not known. -/
def orUtc (m : Moment) : Instant :=
  ⟨m.date, m.time, m.offset.getD .utc⟩

/-- Do the two stand for the same moment?  With an unknown offset on both sides the local times are
compared; with one on one side only the answer is no. -/
def same (m n : Moment) : Bool :=
  match m.instant?, n.instant? with
  | some i, some j => i.sameMoment j
  | none, none => decide (m.date = n.date) && decide (m.time = n.time)
  | _, _ => false

end Moment

/-- An instant is a moment with a known offset. -/
def Instant.toMoment (i : Instant) : Moment := ⟨i.date, i.time, some i.offset⟩

@[simp] theorem Instant.instant?_toMoment (i : Instant) : i.toMoment.instant? = some i := rfl

@[simp] theorem Instant.orUtc_toMoment (i : Instant) : i.toMoment.orUtc = i := rfl

end Timetable
