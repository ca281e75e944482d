import Timetable.Block
import Timetable.Text.Digits

/-! # Blocks in words

The phrase for a block: its times after `at`, its weekdays after `on`, its weeks after `in`, lists
with commas.  Times are written on a clock of twelve hours, to the minute; a full hour has no
minutes.  A weekday on its own is in the plural. -/

namespace Timetable

open Text

/-- A number below one hundred without a leading zero. -/
def shortNumber (n : Nat) : List Char :=
  if n < 10 then padded 1 n else padded 2 n

/-- The two letters for a half of the day. -/
def DayHalf.word : DayHalf → List Char
  | am => "AM".toList
  | pm => "PM".toList

/-- A time on a clock of twelve hours, to the minute. -/
def TimeOfDay.phrase (t : TimeOfDay) : List Char :=
  shortNumber t.twelveHour
    ++ (if t.minute = 0 then [] else ':' :: padded 2 t.minute) ++ ' ' :: t.half.word

/-- A weekday in the plural, or one occurrence of it. -/
def Entry.phrase (e : Entry) : List Char :=
  match e.modifier with
  | none => e.weekday.name.toList ++ ['s']
  | some m => "the ".toList ++ m.word.toList ++ ' ' :: e.weekday.name.toList

/-- The clause for weeks of one parity. -/
def Parity.phrase (p : Parity) : List Char :=
  "in ".toList ++ p.word.toList ++ " weeks".toList

/-- Items with a comma and a space between them. -/
def commaList (items : List (List Char)) : List Char :=
  ", ".toList.intercalate items

/-- The phrase for a block. -/
def Block.phrase (b : Block) : List Char :=
  "at ".toList ++ commaList (b.times.map TimeOfDay.phrase)
    ++ (match b.days with
        | none => []
        | some days => " on ".toList ++ commaList (days.map Entry.phrase))
    ++ (match b.weeks with
        | none => []
        | some p => ' ' :: p.phrase)

instance : ToString Entry := ⟨fun e => String.ofList e.phrase⟩

instance : ToString Block := ⟨fun b => String.ofList b.phrase⟩

end Timetable
