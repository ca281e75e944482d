import Timetable.Phrase.Reader
import Timetable.Phrase.Wording
import Timetable.Text.Uppercase

/-! # Reading a phrase

A schedule phrase, such as `at 6 AM, 6:30 PM on Mondays and the last Friday in odd weeks`, is read
from left to right without going back.  With WS for a single blank:

    phrase   := "at" WS times [WS days] [WS weeks]
    times    := "every hour" | time (sep time)*
    time     := digit [digit] [":" digit digit] WS ("AM" | "PM")
    days     := "on" WS entries | "(" entries ")"
    entries  := entry (sep entry)*
    entry    := weekday "s" | ["the" WS] modifier WS weekday
    weeks    := "in even weeks" | "in odd weeks"
    sep      := "," WS | " and" WS

The words are case-sensitive.  The first fault ends the reading. -/

namespace Timetable.Phrase

open Text Read

/-- What separates two items of a list, if that follows. -/
def separator : Read Bool := do
  let r ← get
  if r.peek? = some ',' then
    eatChar ',' "','"
    eatBlank
    return true
  else if r.continuesWith " and".toList then
    eatBlank
    eatWord "and".toList
    eatBlank
    return true
  else
    return false

/-- The items that follow the first one of a list, at most `limit` of them. -/
def furtherItems {α : Type} (item : Read α) : Nat → Read (List α)
  | 0 => return []
  | limit + 1 => do
    if ← separator then
      let x ← item
      let xs ← furtherItems item limit
      return x :: xs
    else
      return []

/-- A list of one or more items.  A separator takes up characters, so there cannot be more of them
than there are characters left. -/
def items {α : Type} (item : Read α) : Read { xs : List α // xs ≠ [] } := do
  let x ← item
  let r ← get
  let xs ← furtherItems item r.rest.length
  return ⟨x :: xs, List.cons_ne_nil x xs⟩

/-! ### Times -/

/-- The value of an ASCII digit. -/
def digitValue (c : Char) : Nat := c.toNat - '0'.toNat

/-- Does a digit follow? -/
def digitFollows : Read Bool := do
  let r ← get
  return r.rest.head?.any Char.isDigit

/-- One or two digits. -/
def hourDigits : Read Nat := do
  let a ← eatDigit
  if ← digitFollows then
    let b ← eatDigit
    return 10 * digitValue a + digitValue b
  else
    return digitValue a

/-- A colon and two digits; without a colon, nothing. -/
def minuteDigits : Read Nat := do
  let r ← get
  if r.peek? = some ':' then
    eatChar ':' "':'"
    let a ← eatDigit
    let b ← eatDigit
    return 10 * digitValue a + digitValue b
  else
    return 0

/-- The half of the day. -/
def dayHalf : Read DayHalf :=
  eatEntry [(DayHalf.am.word, .am), (DayHalf.pm.word, .pm)] "'AM' or 'PM'"

/-- The time on a clock of twelve hours, or what is wrong with it. -/
def timeOfFields (hour minute : Nat) (half : DayHalf) : Except String TimeOfDay :=
  if 1 ≤ hour ∧ hour ≤ 12 then
    if h : minute < 60 then .ok (.ofTwelveHour hour minute half h)
    else .error "minute must be between 00 and 59"
  else .error "hour must be between 1 and 12"

/-- A time.  It is judged once the whole literal has been read. -/
def time : Read TimeOfDay := do
  let start ← get
  let hour ← hourDigits
  let minute ← minuteDigits
  eatBlank
  let half ← dayHalf
  match timeOfFields hour minute half with
  | .ok t => return t
  | .error reason =>
    let stop ← get
    throw (.badTime (String.ofList (stop.textSince start.position)) reason)

/-- The words for all full hours. -/
def everyHour : List Char := "every hour".toList

/-- All full hours. -/
def fullHours : List TimeOfDay := (List.finRange 24).map TimeOfDay.onTheHour

theorem fullHours_ne : fullHours ≠ [] := by
  decide

/-- All full hours, or a list of times. -/
def times : Read { ts : List TimeOfDay // ts ≠ [] } := do
  let r ← get
  if r.atEnd then throw .unexpectedEnd
  if ← digitFollows then
    items time
  else
    eatEntry [(everyHour, ⟨fullHours, fullHours_ne⟩)] ("a time or " ++ inQuotes everyHour)

/-! ### Weekdays -/

/-- The words for an occurrence within the month. -/
def modifierWords : List (List Char × Modifier) :=
  [("1st".toList, .first), ("first".toList, .first), ("2nd".toList, .second),
    ("second".toList, .second), ("3rd".toList, .third), ("third".toList, .third),
    ("4th".toList, .fourth), ("fourth".toList, .fourth), ("last".toList, .last)]

/-- The words for the weekdays. -/
def weekdayWords : List (List Char × Weekday) :=
  Weekday.all.map fun w => (w.name.toList, w)

/-- The name of a weekday. -/
def weekday : Read Weekday :=
  eatEntry weekdayWords "a weekday name such as 'Monday'"

/-- The word for an occurrence. -/
def modifier : Read Modifier :=
  eatEntry modifierWords
    ("a weekday or one of " ++ ", ".intercalate (modifierWords.map fun m => inQuotes m.1))

/-- A weekday in the plural, or one occurrence in the singular. -/
def entry : Read Entry := do
  let r ← get
  match r.peek? with
  | none => throw .unexpectedEnd
  | some c =>
    if isUppercase c then
      let w ← weekday
      eatChar 's' (inQuotes (w.name.toList ++ ['s']))
      return ⟨w, none⟩
    else
      if r.continuesWith "the".toList then
        eatWord "the".toList
        eatBlank
      let m ← modifier
      eatBlank
      let w ← weekday
      let r ← get
      if r.peek? = some 's' then
        throw (r.fault (inQuotes w.name.toList ++ " after " ++ inQuotes m.word.toList))
      return ⟨w, some m⟩

/-- A list of weekdays, closed by a parenthesis if it was opened by one. -/
def entries (parenthesized : Bool) : Read { es : List Entry // es ≠ [] } := do
  let es ← items entry
  if parenthesized then eatChar ')' "',', ' and' or ')'"
  return es

/-! ### Weeks and the whole phrase -/

/-- The clauses for weeks of one parity. -/
def weekClauses : List (List Char × Parity) :=
  [Parity.even, Parity.odd].map fun p => (p.phrase, p)

/-- The clauses, as a fault names them. -/
def weekClausesExpected : String :=
  " or ".intercalate (weekClauses.map fun c => inQuotes c.1)

/-- A clause for weeks. -/
def weeks : Read Parity :=
  eatEntry weekClauses weekClausesExpected

/-- What may follow the times: weekdays after `(` or `on`, or a clause for weeks. -/
inductive Introduction where
  | parenthesis
  | on
  | weeks (parity : Parity)
deriving DecidableEq, Repr

/-- The words that begin what follows the times. -/
def introductions : List (List Char × Introduction) :=
  [("(".toList, .parenthesis), ("on".toList, .on)]
    ++ weekClauses.map fun c => (c.1, .weeks c.2)

/-- The weeks, if the phrase goes on. -/
def weeksAtLast : Read (Option Parity) := do
  let r ← get
  if r.atEnd then
    return none
  else
    eatBlank
    let p ← weeks
    return some p

/-- The weekdays and the weeks that follow the times. -/
def restrictions : Read ({ days : Option (List Entry) // days ≠ some [] } × Option Parity) := do
  let r ← get
  if r.atEnd then
    return (⟨none, nofun⟩, none)
  else
    eatBlank
    let introduction ← eatEntry introductions ("'on', '(', " ++ weekClausesExpected)
    match introduction with
    | .weeks p => return (⟨none, nofun⟩, some p)
    | .on =>
      eatBlank
      let es ← entries false
      let p ← weeksAtLast
      return (⟨some es.1, fun h => es.2 (Option.some.inj h)⟩, p)
    | .parenthesis =>
      let es ← entries true
      let p ← weeksAtLast
      return (⟨some es.1, fun h => es.2 (Option.some.inj h)⟩, p)

/-- A whole phrase. -/
def phrase : Read Block := do
  eatWord "at".toList
  eatBlank
  let ts ← times
  let (days, weeks) ← restrictions
  let r ← get
  if r.atEnd then
    return ⟨ts.1, days.1, weeks, ts.2, days.2⟩
  else
    throw (r.fault "end of input")

/-- The block that a text describes. -/
def read (text : List Char) : Except PhraseError Block :=
  if text.isEmpty then .error .empty
  else (phrase.run (Reader.ofText text)).map (·.1)

end Timetable.Phrase

namespace Timetable

/-- The block that a phrase describes. -/
def Block.ofPhrase (text : String) : Except PhraseError Block :=
  Phrase.read text.toList

end Timetable
