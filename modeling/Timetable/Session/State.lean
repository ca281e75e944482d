import Timetable.Schedule

/-! # The state of a session

A session holds named values: iterators, schedules and clocks.  Clocks and schedules are kept apart,
so that several iterators can go by one clock, and a schedule stays the same one when blocks are added
to it; a value refers to a clock or a schedule by its number.  Clock number 0 is the system clock, by
which everything goes that is given no clock of its own.  Iterators and lists of blocks are values here;
`Workspace.performAll_refines` says why they may be.

`get?_bind_self` and `get?_bind_of_ne` say what naming a value does: it changes what that name stands
for, and nothing else. -/

namespace Timetable

/-- The number of a clock. -/
abbrev ClockId := Nat

/-- The number of a schedule. -/
abbrev ScheduleId := Nat

/-- A value that can have a name. -/
inductive Value where
  | iterator (it : Iterator) (clock : ClockId)
  | schedule (schedule : ScheduleId)
  | clock (clock : ClockId)
deriving DecidableEq, Repr

/-- Named values, each name once. -/
abbrev Values := List (String × Value)

namespace Values

/-- What a name stands for. -/
def get? (values : Values) (name : String) : Option Value :=
  values.lookup name

/-- Gives a name to a value. -/
def bind (values : Values) (name : String) (value : Value) : Values :=
  (name, value) :: values.filter (·.1 != name)

@[simp] theorem get?_bind_self (values : Values) (name : String) (value : Value) :
    (values.bind name value).get? name = some value := by
  simp [bind, get?]

theorem get?_bind_of_ne (values : Values) {name other : String} (value : Value)
    (h : other ≠ name) : (values.bind name value).get? other = values.get? other := by
  have hf : (values.filter (·.1 != name)).lookup other = values.lookup other := by
    induction values with
    | nil => rfl
    | cons row rows ih =>
      obtain ⟨key, v⟩ := row
      by_cases hk : key = name
      · subst hk
        simp [List.lookup_cons, beq_false_of_ne h, ih]
      · by_cases ho : other = key <;> simp_all [List.lookup_cons]
  simpa [bind, get?, List.lookup_cons, beq_false_of_ne h] using hf

/-- The value under a name. -/
def get (values : Values) (name : String) : Except Error Value :=
  match values.get? name with
  | some value => .ok value
  | none => .error (.unbound name)

end Values

/-- The clocks, what surrounds them, and the schedules. -/
structure World where
  clocks : List Clock
  schedules : List Schedule
  surroundings : Surroundings
deriving DecidableEq, Repr

namespace World

/-- The number of the system clock by which everything goes that is given no clock of its own. -/
def standardClock : ClockId := 0

/-- A world with no clock but the system clock. -/
def ofHost (host : Host) (vars : Variables) : World :=
  ⟨[.system none], [], ⟨host, .ofVariables vars, #[]⟩⟩

/-- The clock with a number. -/
def clock (w : World) (id : ClockId) : Clock :=
  w.clocks.getD id (.system none)

/-- The schedule with a number, if there is one. -/
def schedule (w : World) (id : ScheduleId) : Except Error Schedule :=
  match w.schedules[id]? with
  | some s => .ok s
  | none => .error .unsuitable

end World

/-- Named values, and the world in which they are used. -/
structure Session where
  values : Values
  world : World
deriving DecidableEq, Repr

/-- A session in which nothing has a name yet. -/
def Session.ofHost (host : Host) (vars : Variables) : Session :=
  ⟨[], .ofHost host vars⟩

/-- What can be seen of a value. -/
inductive View where
  | iterator (it : Iterator)
  | schedule (s : Schedule)
  | clock (clock : Clock)
deriving DecidableEq, Repr

/-- What can be seen of a value in a world. -/
def Value.view (w : World) : Value → Except Error View
  | iterator it _ => .ok (.iterator it)
  | schedule id => (w.schedule id).map .schedule
  | clock id => .ok (.clock (w.clock id))

end Timetable
