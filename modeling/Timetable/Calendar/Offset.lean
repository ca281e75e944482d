import Timetable.Calendar.TimeOfDay

/-! # Offsets from UTC

The difference between a local time and UTC, to the microsecond and less than a day either way. -/

namespace Timetable

/-- What a local clock is ahead of UTC, in microseconds. -/
structure Offset where
  micros : Int
  gt_day : -(microsPerDay : Int) < micros
  lt_day : micros < (microsPerDay : Int)
deriving DecidableEq, Repr

namespace Offset

/-- No difference. -/
def utc : Offset := ⟨0, by decide, by decide⟩

/-- The offset of a time ahead of UTC, or of one behind it. -/
def ofTime (ahead : Bool) (t : TimeOfDay) : Offset :=
  if ahead then
    ⟨t.micros, by have := t.lt_day; unfold microsPerDay at *; omega, by exact_mod_cast t.lt_day⟩
  else
    ⟨-t.micros, by have := t.lt_day; omega, by have := t.lt_day; unfold microsPerDay at *; omega⟩

/-- How far the local clock is from UTC, whatever the direction. -/
def distance (o : Offset) : TimeOfDay :=
  ⟨o.micros.natAbs, by have := o.gt_day; have := o.lt_day; omega⟩

@[simp] theorem micros_utc : utc.micros = 0 := rfl

@[simp] theorem micros_ofTime (ahead : Bool) (t : TimeOfDay) :
    (ofTime ahead t).micros = if ahead then (t.micros : Int) else -t.micros := by
  cases ahead <;> rfl

end Offset

end Timetable
