import Timetable.Phrase.Fault
import Timetable.Text.Blank

/-! # A place in a text

A `Reader` is a text with a place in it: the characters passed so far, the last one first, and the
rest.  The steps of reading are `Read` actions.  A step that succeeds moves the reader over exactly
what it matched; a step that fails has no reader to go on with, so its caller still stands where it
stood.  `text_advance` and `position_advance` say what the one elementary move does. -/

namespace Timetable

/-- A text with a place in it. -/
structure Reader where
  passed : List Char
  rest : List Char
deriving DecidableEq, Repr

/-- A step of reading: a value and the new place, or the reason why there is none. -/
abbrev Read := StateT Reader (Except PhraseError)

namespace Reader

/-- At the start of a text. -/
def ofText (text : List Char) : Reader := ⟨[], text⟩

/-- The whole text. -/
def text (r : Reader) : List Char := r.passed.reverse ++ r.rest

/-- The number of characters passed. -/
def position (r : Reader) : Nat := r.passed.length

/-- Is nothing left? -/
def atEnd (r : Reader) : Bool := r.rest.isEmpty

/-- The next character. -/
def peek? (r : Reader) : Option Char := r.rest.head?

/-- Does the rest begin with `word`? -/
def continuesWith (r : Reader) (word : List Char) : Bool := word.isPrefixOf r.rest

/-- The reader after the next `count` characters. -/
def advance (r : Reader) (count : Nat) : Reader :=
  ⟨(r.rest.take count).reverse ++ r.passed, r.rest.drop count⟩

/-- The text between a position and the place of the reader.  A negative position counts from the
end of the text. -/
def textSince (r : Reader) (start : Int) : List Char :=
  let lower := if start < 0 then (r.text.length + start).toNat else start.toNat
  (r.text.take r.position).drop lower

/-- The number of characters that a fault shows of what it met. -/
def excerptLength : Nat := 10

/-- The fault of meeting something else than what was expected here. -/
def fault (r : Reader) (expected : String) : PhraseError :=
  .unexpectedText ⟨r.position, expected, String.ofList (r.rest.take excerptLength)⟩

/-- Could the rest still grow into one of the words?  Nothing left can grow into anything. -/
def stopsShort (r : Reader) (words : List (List Char)) : Bool :=
  r.rest.isEmpty
    || words.any fun word => decide (r.rest.length < word.length) && r.rest.isPrefixOf word

/-- The error of a failed match: the end of the text, if more text could have made a match, and
otherwise a fault here. -/
def unexpected (r : Reader) (expected : String) (words : List (List Char)) : PhraseError :=
  if r.stopsShort words then .unexpectedEnd else r.fault expected

@[simp] theorem text_ofText (text : List Char) : (ofText text).text = text := by
  simp [ofText, Reader.text]

@[simp] theorem position_ofText (text : List Char) : (ofText text).position = 0 := rfl

@[simp] theorem text_advance (r : Reader) (count : Nat) : (r.advance count).text = r.text := by
  simp [advance, text]

theorem position_advance (r : Reader) (count : Nat) :
    (r.advance count).position = r.position + min count r.rest.length := by
  simp [advance, position]
  omega

theorem rest_eq_drop (r : Reader) : r.rest = r.text.drop r.position := by
  simp [text, position]

end Reader

/-! ### Steps of reading -/

namespace Read

/-- A word as a fault names it. -/
def inQuotes (word : List Char) : String := "'" ++ String.ofList word ++ "'"

/-- Passes over the first word of a table that the text continues with, and gives what stands
beside it. -/
def eatEntry {α : Type} (table : List (List Char × α)) (expected : String) : Read α := do
  let r ← get
  match table.find? fun row => r.continuesWith row.1 with
  | some (word, value) =>
    set (r.advance word.length)
    return value
  | none => throw (r.unexpected expected (table.map (·.1)))

/-- Passes over the first of the words that the text continues with. -/
def eatOneOf (words : List (List Char)) (expected : String) : Read (List Char) :=
  eatEntry (words.map fun word => (word, word)) expected

/-- Passes over a word. -/
def eatWord (word : List Char) : Read Unit :=
  eatEntry [(word, ())] (inQuotes word)

/-- Passes over a character. -/
def eatChar (c : Char) (expected : String) : Read Unit := do
  let r ← get
  if r.peek? = some c then set (r.advance 1) else throw (r.unexpected expected [])

/-- Passes over a character of a class. -/
def eatWhere (inClass : Char → Bool) (expected : String) : Read Char := do
  let r ← get
  match r.peek? with
  | none => throw .unexpectedEnd
  | some c =>
    if inClass c then
      set (r.advance 1)
      return c
    else throw (r.fault expected)

/-- Passes over one blank. -/
def eatBlank : Read Unit := do
  let _ ← eatWhere Text.isBlank "whitespace"

/-- Passes over one ASCII digit. -/
def eatDigit : Read Char :=
  eatWhere Char.isDigit "a digit"

end Read

end Timetable
