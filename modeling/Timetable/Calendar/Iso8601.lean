import Timetable.Calendar.Instant
import Timetable.Text.Digits

/-! # Calendar values as text

Dates, times, offsets and instants in the extended format of ISO 8601: `2021-06-09`,
`13:00:00.250000`, `+05:30`, `2021-06-09T13:00:00+00:00`.  The fraction of a second has six digits
and is left out when it is zero; an offset has seconds only when it needs them.  A moment without a
known offset is written without one.  Each writer has a reader beside it, which accepts the written
forms and nothing that is out of range; the reader of offsets takes one of less than a second for
UTC. -/

namespace Timetable

open Text

/-- The fraction of a second, if it is not zero. -/
def TimeOfDay.fractionText (t : TimeOfDay) : List Char :=
  if t.microsecond = 0 then [] else '.' :: padded 6 t.microsecond

/-- `HH:MM:SS`, with a fraction if there is one. -/
def TimeOfDay.toText (t : TimeOfDay) : List Char :=
  padded 2 t.hour ++ ':' :: padded 2 t.minute ++ ':' :: padded 2 t.second ++ t.fractionText

/-- `YYYY-MM-DD`. -/
def Date.toText (d : Date) : List Char :=
  padded 4 d.year ++ '-' :: padded 2 d.month ++ '-' :: padded 2 d.day

/-- A sign and `HH:MM`, then seconds and a fraction if they are not zero. -/
def Offset.toText (o : Offset) : List Char :=
  let t := o.distance
  (if o.micros < 0 then '-' else '+') :: padded 2 t.hour ++ ':' :: padded 2 t.minute
    ++ (if t.second = 0 ∧ t.microsecond = 0 then [] else ':' :: padded 2 t.second ++ t.fractionText)

/-- The date, the letter `T`, the time, and the offset if it is known. -/
def Moment.toText (m : Moment) : List Char :=
  m.date.toText ++ 'T' :: m.time.toText ++ (m.offset.map Offset.toText).getD []

/-- As for a moment. -/
def Instant.toText (i : Instant) : List Char :=
  i.toMoment.toText

/-! ### Readers -/

/-- The value of the first `width` characters, if all of them are ASCII digits, and what follows. -/
def readField? (width : Nat) (text : List Char) : Option (Nat × List Char) :=
  if (text.take width).length = width then
    (readDigits? (text.take width)).map fun n => (n, text.drop width)
  else none

/-- What follows an expected character. -/
def readMark? (mark : Char) : List Char → Option (List Char)
  | c :: rest => if c = mark then some rest else none
  | [] => none

/-- A fraction of a second, or nothing. -/
def readFraction? (text : List Char) : Option (Nat × List Char) :=
  match readMark? '.' text with
  | some rest => readField? 6 rest
  | none => some (0, text)

/-- A date and what follows it. -/
def Date.read? (text : List Char) : Option (Date × List Char) := do
  let (year, text) ← readField? 4 text
  let text ← readMark? '-' text
  let (month, text) ← readField? 2 text
  let text ← readMark? '-' text
  let (day, text) ← readField? 2 text
  let date ← Date.ofYearMonthDay? year month day
  return (date, text)

/-- Hour and minute and, unless they may be missing and are, seconds; and what follows. -/
def TimeOfDay.read? (secondsOptional : Bool) (text : List Char) :
    Option (TimeOfDay × List Char) := do
  let (hour, text) ← readField? 2 text
  let text ← readMark? ':' text
  let (minute, text) ← readField? 2 text
  match readMark? ':' text with
  | some text => do
    let (second, text) ← readField? 2 text
    let (microsecond, text) ← readFraction? text
    let time ← TimeOfDay.ofFields? hour minute second microsecond
    return (time, text)
  | none =>
    if secondsOptional then
      let time ← TimeOfDay.ofFields? hour minute 0 0
      return (time, text)
    else none

/-- The value of a text that is read to its end. -/
def wholly {α : Type} (read? : List Char → Option (α × List Char)) (text : List Char) : Option α :=
  match read? text with
  | some (value, []) => some value
  | _ => none

/-- The date that a text writes. -/
def Date.ofText? (text : List Char) : Option Date :=
  wholly Date.read? text

/-- The time that a text writes. -/
def TimeOfDay.ofText? (text : List Char) : Option TimeOfDay :=
  wholly (TimeOfDay.read? false) text

/-- The offset of a written time ahead of UTC or behind it.  A difference of less than a second is
taken for none. -/
def Offset.ofWritten (ahead : Bool) (t : TimeOfDay) : Offset :=
  if t.micros < 1000000 then utc else ofTime ahead t

/-- The offset that a text writes. -/
def Offset.ofText? : List Char → Option Offset
  | '+' :: text => (wholly (TimeOfDay.read? true) text).map (Offset.ofWritten true)
  | '-' :: text => (wholly (TimeOfDay.read? true) text).map (Offset.ofWritten false)
  | _ => none

/-- The moment that a text writes. -/
def Moment.ofText? (text : List Char) : Option Moment := do
  let (date, text) ← Date.read? text
  let text ← readMark? 'T' text
  let (time, text) ← TimeOfDay.read? false text
  if text.isEmpty then
    return ⟨date, time, none⟩
  else
    let offset ← Offset.ofText? text
    return ⟨date, time, some offset⟩

end Timetable
