import Timetable.LogEvent
import Timetable.Settings

/-! # Clocks

A clock tells the current instant at a given offset, and the offset of local time.  The system clock
asks the host; for the local offset it takes its own if it has one, then the one that is set, and
asks the host only then.  A manual clock shows the moment it has been set to; it counts how often it
is asked for the local offset, and fails as often as it has been told to.  Where a clock does not
know an offset, it has no local one, but still tells the current instant, as if it showed UTC.

Clocks act in a `Scene`: the clock itself, the host, the settings and the log.  A failing action
keeps what it did to the scene until then. -/

namespace Timetable

/-- What is wrong with the local time of a host. -/
inductive HostFault where
  /-- The host cannot tell it, for the given reason. -/
  | unreadable (reason : String)
  /-- The host tells it without an offset. -/
  | unzoned
deriving DecidableEq, Repr

/-- The computer's own clock. -/
structure Host where
  now : Moment
  fault : Option HostFault
deriving DecidableEq, Repr

/-- A clock that is set by hand. -/
structure ManualClock where
  now : Moment
  failures : Int
  lookups : Nat
deriving DecidableEq, Repr

/-- A clock. -/
inductive Clock where
  | system (localOffset : Option Offset)
  | manual (clock : ManualClock)
deriving DecidableEq, Repr

/-- What surrounds all clocks. -/
structure Surroundings where
  host : Host
  settings : SettingsStore
  log : Array LogEvent
deriving DecidableEq, Repr

/-- A clock and what surrounds it. -/
structure Scene where
  clock : Clock
  surroundings : Surroundings
deriving DecidableEq, Repr

/-- An action in a scene that may fail. -/
abbrev Action := ExceptT Error (StateM Scene)

namespace Action

/-- Adds an event to the log. -/
def report (severity : Severity) (message : String) : Action Unit :=
  modify fun s =>
    { s with surroundings :=
      { s.surroundings with log := s.surroundings.log.push ⟨severity, message⟩ } }

/-- The settings. -/
def settings : Action Settings := do
  let s ← get
  let (result, store) := s.surroundings.settings.get
  set { s with surroundings := { s.surroundings with settings := store } }
  result

end Action

namespace Host

/-- What the host shows as its local time. -/
def localTime (host : Host) : Except String Moment :=
  match host.fault with
  | none => .ok host.now
  | some (.unreadable reason) => .error reason
  | some .unzoned => .ok { host.now with offset := none }

/-- The offset of the host's local time, or why it cannot be told. -/
def localOffset (host : Host) : Except String Offset := do
  let shown ← host.localTime
  shown.knownOffset.mapError Error.message

end Host

namespace ManualClock

/-- The offset of the moment that is shown, or a failure that was asked for. -/
def localOffset (m : ManualClock) : Except Error Offset × ManualClock :=
  if 0 < m.failures then
    (.error (.indeterminateOffset "stub clock has no local offset"),
      { m with lookups := m.lookups + 1, failures := m.failures - 1 })
  else
    (m.now.knownOffset, { m with lookups := m.lookups + 1 })

end ManualClock

namespace Clock

/-- What a clock shows. -/
def shown (host : Host) : Clock → Moment
  | system _ => host.now
  | manual m => m.now

/-- The instant that the clock of the scene shows, at the given offset. -/
def now (offset : Offset) : Action Instant := do
  let s ← get
  let shown ← (s.clock.shown s.surroundings.host).assumingUtc
  orOutOfCalendar (shown.inOffset? offset)

/-- The local offset by the host. -/
def hostOffset : Action Offset := do
  let s ← get
  match s.surroundings.host.localOffset with
  | .ok offset => return offset
  | .error reason =>
    Action.report .warning ("Unable to determine the local offset of the host: " ++ reason)
    throw (.indeterminateOffset (Error.noLocalOffset ++ ": " ++ reason))

/-- The offset of local time by the clock of the scene. -/
def localOffset : Action Offset := do
  let s ← get
  match s.clock with
  | system (some offset) => return offset
  | system none =>
    match (← Action.settings).localOffset with
    | some offset => return offset
    | none => hostOffset
  | manual m =>
    let (result, m') := m.localOffset
    set { s with clock := manual m' }
    result

/-- The instant that the clock of the scene shows, at the local offset. -/
def nowLocal : Action Instant := do
  let offset ← localOffset
  now offset

end Clock

end Timetable
