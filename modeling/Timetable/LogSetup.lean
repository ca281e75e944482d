import Timetable.LogEvent
import Timetable.Settings

/-! # Setting up a log

A component logs under its own name, or else under the one that is set, and events for debugging are shown
where the trace setting says so.  This is what a logging library is asked for (`LogRequest`); the log that
comes of it is the library's own affair, and the library, which may refuse, is a parameter of `Log.setup`.
The settings are read for this as they are for everything else: what is asked for does not change when the
variables do (`Log.setup_setVariables`). -/

namespace Timetable

/-- What the logging library is asked for: a name, and a threshold unless it is to choose one itself. -/
structure LogRequest where
  service : String
  threshold : Option Severity
deriving DecidableEq, Repr

namespace LogRequest

/-- The name for a component: its own, unless it is missing or empty. -/
def serviceName (settings : Settings) : Option String → String
  | some name => if name = "" then settings.service else name
  | none => settings.service

/-- What a component asks for. -/
def ofSettings (settings : Settings) (service : Option String) : LogRequest :=
  ⟨serviceName settings service, if settings.trace then some .debug else none⟩

end LogRequest

/-- The name and the threshold of a log. -/
structure Log where
  service : String
  threshold : Severity
deriving DecidableEq, Repr

/-- Why there is no log: the settings cannot be read, or the library refuses. -/
inductive LogError (ε : Type) where
  | settings (error : Error)
  | library (error : ε)
deriving DecidableEq, Repr

namespace Log

/-- Are events for debugging shown? -/
def showsDebug (log : Log) : Bool :=
  decide (log.threshold.rank ≤ Severity.debug.rank)

variable {ε : Type}

/-- The log that the library makes for a component, and the settings after that. -/
def setup (library : LogRequest → Except ε Log) (service : Option String) (store : SettingsStore) :
    Except (LogError ε) Log × SettingsStore :=
  match store.get with
  | (.ok settings, store) => ((library (.ofSettings settings service)).mapError .library, store)
  | (.error error, store) => (.error (.settings error), store)

/-- Once the settings have been read, every component asks by them, whatever becomes of the variables. -/
theorem setup_setVariables {store : SettingsStore} {settings : Settings} (h : store.get.1 = .ok settings)
    (library : LogRequest → Except ε Log) (service : Option String) (vars : Variables) :
    (setup library service (store.get.2.setVariables vars)).1
      = (library (.ofSettings settings service)).mapError .library := by
  have hkept : store.get.2.kept = some settings := by
    revert h
    unfold SettingsStore.get
    split
    · rename_i hkept
      intro h
      exact hkept.trans (congrArg some (Except.ok.inj h))
    · split
      · intro h
        exact congrArg some (Except.ok.inj h)
      · nofun
  rw [setup, SettingsStore.get, SettingsStore.setVariables, hkept]

end Log

end Timetable
