import Timetable.Text.CodeRange

/-! # Changes of case

How characters change with the case of a text is written down as a list of ranges of code points,
each with the distance by which its characters move (`CaseShift`). -/

namespace Timetable.Text

/-- Characters that all move by one distance. -/
structure CaseShift where
  range : CodeRange
  distance : Int
deriving DecidableEq, Repr

/-- The character after its move; one that is in no range stays. -/
def shifted (shifts : List CaseShift) (c : Char) : Char :=
  match shifts.find? (·.range.contains c) with
  | some shift => Char.ofNat (c.toNat + shift.distance).toNat
  | none => c

end Timetable.Text
