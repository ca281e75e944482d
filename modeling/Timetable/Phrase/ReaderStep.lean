import Timetable.Phrase.Reader

/-! # Single steps of a reader

The looks, moves and refusals of a reader as data, so that a caller can carry them out one after
another on one text.  `ReaderStep.perform` carries out a step: a step that fails, like one that only
looks, leaves the reader where it stands. -/

namespace Timetable

/-- One thing to do with a reader. -/
inductive ReaderStep where
  | atEnd
  | peek
  | remaining
  | textSince (start : Int)
  | continuesWith (word : List Char)
  | eatWord (word : List Char)
  | eatOneOf (words : List (List Char)) (expected : String)
  | eatChar (char : List Char) (expected : Option String)
  | eatBlank
  | eatDigit
  | fault (expected : String)
  | unexpected (expected : String) (words : List (List Char))
deriving DecidableEq, Repr

/-- What a step finds. -/
inductive Finding where
  | nothing
  | flag (value : Bool)
  | text (value : List Char)
deriving DecidableEq, Repr

namespace ReaderStep

/-- What a fault says was expected: the given words, or the character if no words are given. -/
def expectedChar (char : List Char) (expected : Option String) : String :=
  match expected with
  | none => Read.inQuotes char
  | some "" => Read.inQuotes char
  | some words => words

/-- The step as an action.  A text that is not a single character is never the next character. -/
def action : ReaderStep → Read Finding
  | atEnd => do return .flag (← get).atEnd
  | peek => do
    match (← get).peek? with
    | some c => return .text [c]
    | none => return .nothing
  | remaining => do return .text (← get).rest
  | textSince start => do return .text ((← get).textSince start)
  | continuesWith word => do return .flag ((← get).continuesWith word)
  | eatWord word => do
    Read.eatWord word
    return .nothing
  | eatOneOf words expected => do return .text (← Read.eatOneOf words expected)
  | eatChar char expected => do
    match char with
    | [c] => Read.eatChar c (expectedChar char expected)
    | _ => throw ((← get).unexpected (expectedChar char expected) [])
    return .nothing
  | eatBlank => do
    Read.eatBlank
    return .nothing
  | eatDigit => do return .text [← Read.eatDigit]
  | fault expected => do throw ((← get).fault expected)
  | unexpected expected words => do throw ((← get).unexpected expected words)

/-- Carries out a step: what it finds, or why it fails, and where the reader stands then. -/
def perform (step : ReaderStep) (r : Reader) : Except PhraseError Finding × Reader :=
  match step.action.run r with
  | .ok (finding, r') => (.ok finding, r')
  | .error e => (.error e, r)

/-- Carries out one step after another; each finding comes with the position after its step. -/
def performAll : List ReaderStep → Reader → List (Except PhraseError Finding × Nat) × Reader
  | [], r => ([], r)
  | step :: steps, r =>
    let (found, r') := step.perform r
    let (rest, last) := performAll steps r'
    ((found, r'.position) :: rest, last)

end ReaderStep

end Timetable
