/-! # Times of day

A time of day is the number of microseconds since midnight.  Phrases give it on a clock of twelve
hours (`ofTwelveHour`), in which 12 AM is midnight and 12 PM is noon. -/

namespace Timetable

/-- The number of microseconds in a day. -/
def microsPerDay : Nat := 86400000000

/-- A time of day, to the microsecond. -/
structure TimeOfDay where
  micros : Nat
  lt_day : micros < microsPerDay
deriving DecidableEq, Repr

/-- The half of the day before noon, or the one after. -/
inductive DayHalf where
  | am
  | pm
deriving DecidableEq, Repr

namespace TimeOfDay

/-- The hour, from 0 to 23. -/
def hour (t : TimeOfDay) : Nat := t.micros / 3600000000

/-- The minute of the hour. -/
def minute (t : TimeOfDay) : Nat := t.micros / 60000000 % 60

/-- The second of the minute. -/
def second (t : TimeOfDay) : Nat := t.micros / 1000000 % 60

/-- The microsecond of the second. -/
def microsecond (t : TimeOfDay) : Nat := t.micros % 1000000

/-- The time with the given hour, minute, second and microsecond, if each is in its range. -/
def ofFields? (hour minute second microsecond : Nat) : Option TimeOfDay :=
  if h : hour < 24 ∧ minute < 60 ∧ second < 60 ∧ microsecond < 1000000 then
    some ⟨((hour * 60 + minute) * 60 + second) * 1000000 + microsecond, by
      unfold microsPerDay
      omega⟩
  else none

/-- The full hour. -/
def onTheHour (hour : Fin 24) : TimeOfDay :=
  ⟨hour.val * 3600000000, by
    unfold microsPerDay
    omega⟩

/-- The time that a clock of twelve hours shows. -/
def ofTwelveHour (hour minute : Nat) (half : DayHalf) (h : minute < 60) : TimeOfDay :=
  ⟨((hour % 12 + (match half with | .am => 0 | .pm => 12)) * 60 + minute) * 60000000, by
    unfold microsPerDay
    cases half <;> simp only <;> omega⟩

/-- The hour that a clock of twelve hours shows, from 1 to 12. -/
def twelveHour (t : TimeOfDay) : Nat :=
  if t.hour % 12 = 0 then 12 else t.hour % 12

/-- The half of the day. -/
def half (t : TimeOfDay) : DayHalf :=
  if t.hour < 12 then .am else .pm

/-- The time without its seconds and microseconds. -/
def wholeMinute (t : TimeOfDay) : TimeOfDay :=
  ⟨t.micros / 60000000 * 60000000, Nat.lt_of_le_of_lt (Nat.div_mul_le_self _ _) t.lt_day⟩

end TimeOfDay

end Timetable
