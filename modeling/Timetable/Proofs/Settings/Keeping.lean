import Timetable.Settings
import Timetable.Proofs.Text.Stripping

/-! # Settings are read once

A variable counts if it is set to a text that is not blank (`Variables.Sets`).  The variables make settings
unless the one for the local offset counts and is not an offset (`Settings.ofVariables_eq_error_iff`), and
which settings they make is said variable by variable (`Settings.MadeOf`).  Between changes of the variables
the settings are asked for again and again: the first success since they have last been dropped is the answer
from then on, and until then every call reads the variables as they are (`SettingsStore.getAll_readOnce`). -/

namespace Timetable

open Text

/-- The variable is set to the text, and this is not blank. -/
def Variables.Sets (vars : Variables) (name text : String) : Prop :=
  vars.lookup name = some text ∧ ∃ c ∈ text.toList, isBlank c = false

/-- The settings are those that the variables make. -/
structure Settings.MadeOf (settings : Settings) (vars : Variables) : Prop where
  localOffset : ∀ text, vars.Sets "CRON_LINGO_LOCAL_OFFSET" text →
    ∃ o, Offset.parse text = .ok o ∧ settings.localOffset = some o
  noLocalOffset : (∀ text, ¬ vars.Sets "CRON_LINGO_LOCAL_OFFSET" text) → settings.localOffset = none
  trace : settings.trace = true ↔ ∃ text, vars.Sets "CRON_LINGO_TRACE" text ∧ isAffirmative text = true
  service : ∀ text, vars.Sets "CRON_LINGO_LOG_SERVICE" text →
    StripsTo text.toList settings.service.toList
  noService : (∀ text, ¬ vars.Sets "CRON_LINGO_LOG_SERVICE" text) →
    settings.service = defaultService

namespace Variables

variable {vars : Variables} {name text : String}

theorem strip_ne_nil_iff : strip text.toList ≠ [] ↔ ∃ c ∈ text.toList, isBlank c = false := by
  rw [ne_eq, strip_eq_nil_iff]
  simp

theorem sets_iff (h : vars.lookup name = some text) {other : String} :
    vars.Sets name other ↔ other = text ∧ strip text.toList ≠ [] := by
  rw [Sets, h, Option.some.injEq, strip_ne_nil_iff]
  constructor
  · rintro ⟨rfl, hc⟩
    exact ⟨rfl, hc⟩
  · rintro ⟨rfl, hc⟩
    exact ⟨rfl, hc⟩

theorem not_sets_of_lookup_eq_none (h : vars.lookup name = none) : ¬ vars.Sets name text := by
  rintro ⟨hlookup, -⟩
  rw [h] at hlookup
  cases hlookup

end Variables

namespace Settings

variable {vars : Variables} {name : String} {found : Option Offset} {error : Error}
  {settings : Settings}

/-! ### One variable -/

theorem offsetOfVariable_eq_error_iff : offsetOfVariable (vars.lookup name) = .error error ↔
    ∃ text fault, vars.Sets name text ∧ Offset.parse text = .error fault ∧ error = .setting fault := by
  cases hlookup : vars.lookup name with
  | none => simp [offsetOfVariable, Variables.not_sets_of_lookup_eq_none hlookup]
  | some text =>
      simp only [offsetOfVariable, Variables.sets_iff hlookup]
      by_cases hblank : strip text.toList = []
      · simp [hblank]
      · cases hparse : Offset.parse text <;> simp [hblank, hparse, eq_comm]

theorem offsetOfVariable_eq_ok_iff : offsetOfVariable (vars.lookup name) = .ok found ↔
    (∀ text, vars.Sets name text → ∃ o, Offset.parse text = .ok o ∧ found = some o)
      ∧ ((∀ text, ¬ vars.Sets name text) → found = none) := by
  cases hlookup : vars.lookup name with
  | none => simp [offsetOfVariable, Variables.not_sets_of_lookup_eq_none hlookup, eq_comm]
  | some text =>
      simp only [offsetOfVariable, Variables.sets_iff hlookup]
      by_cases hblank : strip text.toList = []
      · simp [hblank, eq_comm]
      · cases hparse : Offset.parse text <;> simp [hblank, hparse, eq_comm]

theorem isAffirmative_getD_iff : isAffirmative ((vars.lookup name).getD "") = true ↔
    ∃ text, vars.Sets name text ∧ isAffirmative text = true := by
  cases hlookup : vars.lookup name with
  | none =>
      simp only [Variables.not_sets_of_lookup_eq_none hlookup, false_and, exists_false, iff_false]
      decide
  | some text =>
      simp only [Variables.sets_iff hlookup, Option.getD_some]
      by_cases hblank : strip text.toList = []
      · simp [hblank, isAffirmative]
      · simp [hblank]

theorem strippedOr_getD_eq_iff {fallback service : String} :
    strippedOr fallback ((vars.lookup name).getD "") = service ↔
      (∀ text, vars.Sets name text → StripsTo text.toList service.toList)
        ∧ ((∀ text, ¬ vars.Sets name text) → service = fallback) := by
  cases hlookup : vars.lookup name with
  | none => simp [strippedOr, Variables.not_sets_of_lookup_eq_none hlookup, eq_comm]
  | some text =>
      simp only [strippedOr, Variables.sets_iff hlookup, Option.getD_some, ← strip_eq_iff]
      by_cases hblank : strip text.toList = []
      · simp [hblank, eq_comm]
      · have hlist : String.ofList (strip text.toList) = service
            ↔ strip text.toList = service.toList := by
          rw [String.ext_iff, String.toList_ofList]
        simp [hblank, hlist]

/-! ### All variables -/

theorem ofVariables_eq_error_iff : ofVariables vars = .error error ↔
    ∃ text fault, vars.Sets "CRON_LINGO_LOCAL_OFFSET" text ∧ Offset.parse text = .error fault
      ∧ error = .setting fault := by
  rw [← offsetOfVariable_eq_error_iff, ofVariables]
  cases offsetOfVariable (vars.lookup "CRON_LINGO_LOCAL_OFFSET") with
  | error fault =>
      change Except.error _ = Except.error _ ↔ _
      simp only [Except.error.injEq]
  | ok found => exact ⟨nofun, nofun⟩

theorem ofVariables_eq_ok_iff : ofVariables vars = .ok settings ↔ settings.MadeOf vars := by
  have hparts : ofVariables vars = .ok settings ↔
      offsetOfVariable (vars.lookup "CRON_LINGO_LOCAL_OFFSET") = .ok settings.localOffset
        ∧ isAffirmative ((vars.lookup "CRON_LINGO_TRACE").getD "") = settings.trace
        ∧ strippedOr defaultService ((vars.lookup "CRON_LINGO_LOG_SERVICE").getD "")
          = settings.service := by
    obtain ⟨localOffset, trace, service⟩ := settings
    rw [ofVariables]
    cases offsetOfVariable (vars.lookup "CRON_LINGO_LOCAL_OFFSET") with
    | error fault => exact ⟨nofun, nofun⟩
    | ok found =>
        change Except.ok _ = Except.ok _ ↔ _
        simp only [Except.ok.injEq, Settings.mk.injEq]
  rw [hparts, offsetOfVariable_eq_ok_iff, strippedOr_getD_eq_iff, Bool.eq_iff_iff,
    isAffirmative_getD_iff]
  constructor
  · rintro ⟨⟨hset, hunset⟩, htrace, hservice, hdefault⟩
    exact ⟨hset, hunset, htrace.symm, hservice, hdefault⟩
  · rintro ⟨hset, hunset, htrace, hservice, hdefault⟩
    exact ⟨⟨hset, hunset⟩, htrace.symm, hservice, hdefault⟩

end Settings

/-! ### One call -/

namespace SettingsChange

/-- The variables that the change puts in the place of those before. -/
def variables? : SettingsChange → Option Variables
  | keep => none
  | replace vars => some vars
  | replaceAndDrop vars => some vars

/-- Are the kept settings dropped? -/
def drops : SettingsChange → Bool
  | replaceAndDrop _ => true
  | _ => false

end SettingsChange

namespace SettingsStore

variable {store : SettingsStore} {settings : Settings} {change : SettingsChange}
  {changes : List SettingsChange}

theorem get_of_kept (h : store.kept = some settings) : store.get = (.ok settings, store) := by
  simp only [get, h]

/-- A failure is not kept, a success is. -/
theorem get_of_not_kept (h : store.kept = none) : store.get =
    (Settings.ofVariables store.vars,
      { store with kept := (Settings.ofVariables store.vars).toOption }) := by
  obtain ⟨vars, kept⟩ := store
  obtain rfl : kept = none := h
  simp only [get]
  cases Settings.ofVariables vars <;> rfl

/-- What is kept after a call is what it has answered. -/
theorem kept_get (store : SettingsStore) : store.get.2.kept = store.get.1.toOption := by
  cases h : store.kept with
  | none => rw [get_of_not_kept h]
  | some settings => rw [get_of_kept h, h]; rfl

@[simp] theorem vars_get (store : SettingsStore) : store.get.2.vars = store.vars := by
  cases h : store.kept with
  | none => rw [get_of_not_kept h]
  | some settings => rw [get_of_kept h]

theorem vars_change (store : SettingsStore) (change : SettingsChange) :
    (store.change change).vars = change.variables?.getD store.vars := by
  cases change <;> rfl

theorem kept_change (store : SettingsStore) (change : SettingsChange) :
    (store.change change).kept = if change.drops then none else store.kept := by
  cases change <;> rfl

/-! ### Many calls -/

/-- The store after several changes, each followed by a call. -/
def afterAll : List SettingsChange → SettingsStore → SettingsStore
  | [], store => store
  | change :: changes, store => afterAll changes (store.change change).get.2

theorem getAll_append (changes later : List SettingsChange) (store : SettingsStore) :
    getAll (changes ++ later) store = getAll changes store ++ getAll later (afterAll changes store) := by
  induction changes generalizing store with
  | nil => rfl
  | cons change changes ih => exact congrArg _ (ih (store.change change).get.2)

/-- Settings that are kept are the answer until they are dropped. -/
theorem getAll_of_kept (h : store.kept = some settings) (hdrops : ∀ c ∈ changes, c.drops = false) :
    getAll changes store = List.replicate changes.length (.ok settings) := by
  induction changes generalizing store with
  | nil => rfl
  | cons change changes ih =>
      obtain ⟨hchange, hchanges⟩ := List.forall_mem_cons.mp hdrops
      have hkept : (store.change change).kept = some settings := by
        rw [kept_change, hchange, ← h]
        rfl
      simp only [getAll, get_of_kept hkept, ih hkept hchanges, List.length_cons,
        List.replicate_succ]

/-- What is kept after several calls is what the last one has answered. -/
theorem kept_afterAll (changes : List SettingsChange) (store : SettingsStore) :
    (afterAll changes store).kept
      = ((getAll changes store).getLast?.map Except.toOption).getD store.kept := by
  induction changes generalizing store with
  | nil => rfl
  | cons change changes ih =>
      rw [afterAll, ih, kept_get, getAll, List.getLast?_cons]
      cases (getAll changes (store.change change).get.2).getLast? <;> rfl

theorem vars_afterAll (changes : List SettingsChange) (store : SettingsStore) :
    (afterAll changes store).vars
      = changes.foldl (fun vars change => change.variables?.getD vars) store.vars := by
  induction changes generalizing store with
  | nil => rfl
  | cons change changes ih => rw [afterAll, ih, vars_get, vars_change, List.foldl_cons]

/-- Variables of which nothing has been read are changed and read any number of times, and then once more
after a change.  The variables are then those that the last change has brought, and the settings of the call
before are still kept if it has succeeded and they are not dropped now.  If this call succeeds, so does every
later one up to a drop, with the same settings.  If nothing is kept, it fails exactly if the variable for
the local offset counts and is not an offset, and otherwise finds what the variables make; a failure leaves
nothing behind. -/
theorem getAll_readOnce (vars : Variables) (before : List SettingsChange) (change : SettingsChange) :
    let start := ofVariables vars
    let now := (start.afterAll before).change change
    now.vars = (before ++ [change]).foldl (fun vars change => change.variables?.getD vars) vars
      ∧ now.kept = (if change.drops then none
          else (start.getAll before).getLast?.bind Except.toOption)
      ∧ (∀ settings, now.get.1 = .ok settings →
          ∀ later : List SettingsChange, (∀ c ∈ later, c.drops = false) →
            start.getAll (before ++ change :: later)
              = start.getAll before ++ List.replicate (later.length + 1) (.ok settings))
      ∧ (now.kept = none →
          (∀ error, now.get.1 = .error error ↔
            ∃ text fault, now.vars.Sets "CRON_LINGO_LOCAL_OFFSET" text
              ∧ Offset.parse text = .error fault ∧ error = .setting fault)
          ∧ (∀ settings, now.get.1 = .ok settings ↔ settings.MadeOf now.vars)
          ∧ now.get.2 = { now with kept := now.get.1.toOption }) := by
  intro start now
  refine ⟨?vars, ?kept, ?later, ?fresh⟩
  case vars =>
    rw [vars_change, vars_afterAll, List.foldl_append]
    rfl
  case kept =>
    have hbefore : (start.afterAll before).kept
        = (start.getAll before).getLast?.bind Except.toOption := by
      rw [kept_afterAll]
      cases (start.getAll before).getLast? <;> rfl
    rw [← hbefore]
    exact kept_change _ change
  case later =>
    intro settings hnow later hdrops
    have hkept : now.get.2.kept = some settings := by
      rw [kept_get, hnow]
      rfl
    have hanswers : getAll (change :: later) (start.afterAll before)
        = now.get.1 :: getAll later now.get.2 := rfl
    rw [getAll_append, hanswers, hnow, getAll_of_kept hkept hdrops]
    rfl
  case fresh =>
    intro hkept
    rw [get_of_not_kept hkept]
    exact ⟨fun error => Settings.ofVariables_eq_error_iff, fun settings => Settings.ofVariables_eq_ok_iff,
      rfl⟩

/-- No clock shows 25 hours. -/
def beyondADay : Variables :=
  [("CRON_LINGO_LOCAL_OFFSET", "+25:00")]

/-- All three are set, with blanks around two of them. -/
def nightShift : Variables :=
  [("CRON_LINGO_LOCAL_OFFSET", "+02:00"), ("CRON_LINGO_TRACE", " Yes"),
    ("CRON_LINGO_LOG_SERVICE", " night shift ")]

/-- The first call fails, the second one finds the correction, and the third one does not see that this is
undone. -/
theorem getAll_readOnce_nightShift :
    let start := ofVariables beyondADay
    let now := (start.afterAll [.keep]).change (.replace nightShift)
    let settings : Settings := ⟨some (.ofTime true (.onTheHour 2)), true, "night shift"⟩
    now.kept = none ∧ now.get.1 = .ok settings ∧ settings.MadeOf nightShift
      ∧ start.getAll [.keep, .replace nightShift, .replace beyondADay]
        = [.error (.setting (.outOfRange "+25:00")), .ok settings, .ok settings] := by
  intro start now settings
  obtain ⟨-, hkept, hlater, hfresh⟩ := getAll_readOnce beyondADay [.keep] (.replace nightShift)
  have hnone : now.kept = none := hkept.trans (by decide +kernel)
  have hnow : now.get.1 = .ok settings := by decide +kernel
  obtain ⟨-, hmade, -⟩ := hfresh hnone
  refine ⟨hnone, hnow, (hmade settings).mp hnow, ?_⟩
  have hanswers := hlater settings hnow [.replace beyondADay] (by simp [SettingsChange.drops])
  have hfirst : start.getAll [.keep] = [.error (.setting (.outOfRange "+25:00"))] := by decide +kernel
  rw [hfirst] at hanswers
  exact hanswers

end SettingsStore

end Timetable
