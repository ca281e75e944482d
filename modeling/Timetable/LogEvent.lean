import Timetable.Phrase.Reading

/-! # Log events

What the library reports about its work, as values: a severity and a message.  A log shows the
events at its threshold or above it (`LogEvent.shownAt`). -/

namespace Timetable

/-- How much an event matters.  As a threshold, `unset` lets everything through. -/
inductive Severity where
  | unset
  | debug
  | info
  | warning
  | error
  | critical
deriving DecidableEq, Repr

/-- The place in the order of severities. -/
def Severity.rank : Severity → Nat
  | unset => 0
  | debug => 10
  | info => 20
  | warning => 30
  | error => 40
  | critical => 50

/-- The name under which events of this severity are logged. -/
def Severity.name : Severity → String
  | unset => "NOTSET"
  | debug => "DEBUG"
  | info => "INFO"
  | warning => "WARNING"
  | error => "ERROR"
  | critical => "CRITICAL"

/-- Something worth reporting. -/
structure LogEvent where
  severity : Severity
  message : String
deriving DecidableEq, Repr

namespace LogEvent

/-- Does a log with the given threshold show the event? -/
def shownAt (threshold : Severity) (event : LogEvent) : Bool :=
  decide (threshold.rank ≤ event.severity.rank)

/-- What is reported of the reading of a phrase.  A text of no characters is not reported. -/
def ofReading (text : String) (result : Except PhraseError Block) : List LogEvent :=
  match result with
  | .ok block => [⟨.debug, "Parsed phrase \"" ++ text ++ "\" as \"" ++ toString block ++ "\""⟩]
  | .error .empty => []
  | .error error =>
    [⟨.debug, "Failed to parse phrase \"" ++ text ++ "\" (" ++ error.code ++ "): "
      ++ error.message⟩]

end LogEvent

end Timetable
