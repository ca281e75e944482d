import Timetable.Text.Quoted

/-! # Faults in a phrase

Why a phrase cannot be read.  Faults are values: two of the same kind with the same contents are
equal.  `PhraseError.message` words them for a reader, and `SyntaxFault.describe` writes a syntax
fault with all that it holds. -/

namespace Timetable

/-- A phrase that goes wrong at some place: the place, counted in characters, what could have stood
there, and the beginning of what stands there. -/
structure SyntaxFault where
  position : Int
  expected : String
  continues : String
deriving DecidableEq, Repr

/-- Why a phrase cannot be read. -/
inductive PhraseError where
  /-- There is no text at all. -/
  | empty
  /-- The text ends where more should follow. -/
  | unexpectedEnd
  /-- The text goes on in a way that no phrase does. -/
  | unexpectedText (fault : SyntaxFault)
  /-- A time is well formed, but the clock never shows it. -/
  | badTime (literal reason : String)
deriving DecidableEq, Repr

namespace SyntaxFault

/-- The fault with its fields by name, texts in quotation marks. -/
def describe (fault : SyntaxFault) : String :=
  "ExpressionSyntaxError(position=" ++ toString fault.position
    ++ ", expected=" ++ String.ofList (Text.quoted fault.expected.toList)
    ++ ", continues=" ++ String.ofList (Text.quoted fault.continues.toList) ++ ")"

end SyntaxFault

namespace PhraseError

/-- The kind of the error in one word. -/
def code : PhraseError → String
  | empty => "EmptyExpression"
  | unexpectedEnd => "UnexpectedEndOfInput"
  | unexpectedText _ => "Syntax"
  | badTime _ _ => "TimeParse"

/-- The error in words. -/
def message : PhraseError → String
  | empty => "the expression string must not be empty"
  | unexpectedEnd =>
    "the parser reached the end of the input expression while expecting more characters"
  | unexpectedText fault =>
    "unexpected sequence of characters starting at position '" ++ toString fault.position
      ++ "', expected " ++ fault.expected
  | badTime literal reason => "invalid time \"" ++ literal ++ "\": " ++ reason

end PhraseError

end Timetable
