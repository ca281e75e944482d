import Timetable.Calendar.Offset
import Timetable.Text.Blank
import Timetable.Text.DecimalDigit

/-! # Offsets as people write them

An offset is given as `Z` or `UTC` in any case, or as a sign, two digits for the hours, a colon or
none, and two digits for the minutes; blanks around it do not matter.  The digits may be the decimal
digits of any script.  A text of this shape that no clock shows is out of range; any other text is
malformed. -/

namespace Timetable

open Text

/-- Why a text is not an offset. -/
inductive OffsetError where
  | malformed (text : String)
  | outOfRange (text : String)
deriving DecidableEq, Repr

/-- The error in words. -/
def OffsetError.message : OffsetError → String
  | malformed text => "Invalid offset string " ++ text ++ ", must match +HH:MM"
  | outOfRange text => "Offset out of range: " ++ text

namespace Offset

/-- Does the text, in upper case, name UTC itself? -/
def namesUtc (text : List Char) : Bool :=
  let upper := text.map Char.toUpper
  upper == "Z".toList || upper == "UTC".toList

/-- The hours and the minutes written by four digits, a colon between the pairs or none. -/
def readHoursMinutes? : List Char → Option (Nat × Nat)
  | [a, b, ':', c, d] => do
    return (10 * (← decimalValue? a) + (← decimalValue? b),
      10 * (← decimalValue? c) + (← decimalValue? d))
  | [a, b, c, d] => do
    return (10 * (← decimalValue? a) + (← decimalValue? b),
      10 * (← decimalValue? c) + (← decimalValue? d))
  | _ => none

/-- The direction, the hours and the minutes that a text gives. -/
def readSigned? : List Char → Option (Bool × Nat × Nat)
  | '+' :: text => (readHoursMinutes? text).map (true, ·)
  | '-' :: text => (readHoursMinutes? text).map (false, ·)
  | _ => none

/-- The offset that a text gives. -/
def parse (text : String) : Except OffsetError Offset :=
  let inner := strip text.toList
  if namesUtc inner then .ok utc
  else
    match readSigned? inner with
    | none => .error (.malformed text)
    | some (ahead, hours, minutes) =>
      match TimeOfDay.ofFields? hours minutes 0 0 with
      | none => .error (.outOfRange text)
      | some t => .ok (ofTime ahead t)

end Offset

end Timetable
