import Timetable.Block
import Timetable.Calendar.Iso8601
import Timetable.Calendar.OffsetNotation
import Timetable.Phrase.Fault

/-! # Errors

Everything that can go wrong in the library, by cause.  `Error.message` words each of them; the
kinds that concern phrases and the local offset have a code as well (`Error.code?`). -/

namespace Timetable

/-- What an instant was needed for, when its offset is not known. -/
inductive Need where
  | cursor
  | start
  | offset
deriving DecidableEq, Repr

/-- The words for the instant that was needed. -/
def Need.noun : Need → String
  | cursor => "cursor"
  | start => "start instant"
  | offset => "datetime"

/-- The cause of a failure. -/
inductive Error where
  /-- A phrase cannot be read. -/
  | phrase (error : PhraseError)
  /-- The offset of local time is not known. -/
  | indeterminateOffset (reason : String)
  /-- A block cannot be made of its parts. -/
  | block (error : BlockError)
  /-- A text is not an offset. -/
  | offset (error : OffsetError)
  /-- The setting for the local offset is not an offset. -/
  | setting (error : OffsetError)
  /-- An instant has no known offset where one is needed. -/
  | unknownOffset (need : Need) (moment : Moment)
  /-- There is no block to iterate over. -/
  | nothingToIterate
  /-- There is no block to schedule. -/
  | nothingToSchedule
  /-- The calculation leaves the years of the calendar. -/
  | outOfCalendar
  /-- The calculation needs a day before the first one of the calendar. -/
  | beforeCalendar
  /-- The operation is not defined on its operand. -/
  | unsuitable
  /-- A name stands for nothing. -/
  | unbound (name : String)
deriving DecidableEq, Repr

namespace Error

/-- The kind of the error in one word, for the kinds that have one. -/
def code? : Error → Option String
  | phrase error => some error.code
  | indeterminateOffset _ => some "IndeterminateOffset"
  | _ => none

/-- The reason why the local offset is not known, if there is none more exact. -/
def noLocalOffset : String := "the local offset could not be determined"

/-- The error in words. -/
def message : Error → String
  | phrase error => error.message
  | indeterminateOffset reason => reason
  | block error => error.message
  | offset error => error.message
  | setting error => "Invalid value for CRON_LINGO_LOCAL_OFFSET: " ++ error.message
  | unknownOffset need moment =>
    "Expected a timezone-aware " ++ need.noun ++ ", received " ++ String.ofList moment.toText
  | nothingToIterate => "at least one block is required"
  | nothingToSchedule => "a multi-schedule must contain at least one block"
  | outOfCalendar => "date value out of range"
  | beforeCalendar => "year 0 is out of range"
  | unsuitable => "unsupported operand"
  | unbound name => "no value named " ++ name

end Error

/-- The result of a calculation that may leave the calendar. -/
def orOutOfCalendar {α : Type} : Option α → Except Error α
  | some value => .ok value
  | none => .error .outOfCalendar

/-- The instant, if the offset of the moment is known. -/
def Moment.aware (need : Need) (m : Moment) : Except Error Instant :=
  match m.instant? with
  | some i => .ok i
  | none => .error (.unknownOffset need m)

/-- The instant, UTC being assumed where the offset is not known.  Local time without an offset may
have been shown a day earlier too, so that the day before has to be in the calendar as well. -/
def Moment.assumingUtc (m : Moment) : Except Error Instant :=
  if m.offset = none ∧ m.date = .first then .error .beforeCalendar else .ok m.orUtc

@[simp] theorem Instant.assumingUtc_toMoment (i : Instant) : i.toMoment.assumingUtc = .ok i := by
  simp [Moment.assumingUtc, toMoment, Moment.orUtc]

/-- The offset of a moment. -/
def Moment.knownOffset (m : Moment) : Except Error Offset :=
  (m.aware .offset).map (·.offset)

end Timetable
