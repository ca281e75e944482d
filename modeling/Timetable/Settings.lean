import Timetable.Error

/-! # Settings

The settings of the library come from variables: the offset to take for local time, whether to log
events for debugging, and the name under which to log.  All are optional.  They are read once
(`SettingsStore.get`): the first success is kept, whatever becomes of the variables, until the kept
settings are dropped; a failure is not kept. -/

namespace Timetable

open Text

/-- Named texts; of two with one name the first counts. -/
abbrev Variables := List (String × String)

/-- What the variables set. -/
structure Settings where
  localOffset : Option Offset
  trace : Bool
  service : String
deriving DecidableEq, Repr

/-- Is the text a word for yes? -/
def isAffirmative (text : String) : Bool :=
  let word := (strip text.toList).map Char.toLower
  word == "true".toList || word == "yes".toList

namespace Settings

/-- The name under which to log if none is set. -/
def defaultService : String := "cron-lingo"

/-- The offset that a variable sets.  A blank value sets none. -/
def offsetOfVariable : Option String → Except Error (Option Offset)
  | none => .ok none
  | some text =>
    if strip text.toList = [] then .ok none
    else
      match Offset.parse text with
      | .ok offset => .ok (some offset)
      | .error error => .error (.setting error)

/-- The text without blanks around it, or a default if nothing is left. -/
def strippedOr (fallback : String) (text : String) : String :=
  let inner := strip text.toList
  if inner = [] then fallback else String.ofList inner

/-- The settings that the variables make. -/
def ofVariables (vars : Variables) : Except Error Settings := do
  let localOffset ← offsetOfVariable (vars.lookup "CRON_LINGO_LOCAL_OFFSET")
  return {
    localOffset
    trace := isAffirmative ((vars.lookup "CRON_LINGO_TRACE").getD "")
    service := strippedOr defaultService ((vars.lookup "CRON_LINGO_LOG_SERVICE").getD "") }

end Settings

/-- The variables, and the settings once they have been read. -/
structure SettingsStore where
  vars : Variables
  kept : Option Settings
deriving DecidableEq, Repr

namespace SettingsStore

/-- Variables of which nothing has been read yet. -/
def ofVariables (vars : Variables) : SettingsStore := ⟨vars, none⟩

/-- The settings: the kept ones, or else those of the variables, which are kept if they
are sound. -/
def get (store : SettingsStore) : Except Error Settings × SettingsStore :=
  match store.kept with
  | some settings => (.ok settings, store)
  | none =>
    match Settings.ofVariables store.vars with
    | .ok settings => (.ok settings, { store with kept := some settings })
    | .error error => (.error error, store)

/-- Other variables.  Settings that were kept stay. -/
def setVariables (store : SettingsStore) (vars : Variables) : SettingsStore :=
  { store with vars }

/-- The kept settings are dropped. -/
def drop (store : SettingsStore) : SettingsStore :=
  { store with kept := none }

end SettingsStore

/-- A change of the variables before the settings are asked for. -/
inductive SettingsChange where
  | keep
  | replace (vars : Variables)
  | replaceAndDrop (vars : Variables)
deriving DecidableEq, Repr

/-- The store after a change. -/
def SettingsStore.change (store : SettingsStore) : SettingsChange → SettingsStore
  | .keep => store
  | .replace vars => store.setVariables vars
  | .replaceAndDrop vars => (store.setVariables vars).drop

/-- The settings that are found after each of several changes. -/
def SettingsStore.getAll : List SettingsChange → SettingsStore → List (Except Error Settings)
  | [], _ => []
  | change :: changes, store =>
    let (settings, store') := (store.change change).get
    settings :: getAll changes store'

end Timetable
