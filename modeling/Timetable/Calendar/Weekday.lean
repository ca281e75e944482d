/-! # Days of the week

The seven weekdays, counted from Monday, which has index zero. -/

namespace Timetable

/-- A day of the week. -/
inductive Weekday where
  | monday
  | tuesday
  | wednesday
  | thursday
  | friday
  | saturday
  | sunday
deriving DecidableEq, Repr

namespace Weekday

/-- All weekdays, in order. -/
def all : List Weekday :=
  [monday, tuesday, wednesday, thursday, friday, saturday, sunday]

/-- The number of days since the last Monday. -/
def index : Weekday → Nat
  | monday => 0
  | tuesday => 1
  | wednesday => 2
  | thursday => 3
  | friday => 4
  | saturday => 5
  | sunday => 6

/-- The weekday a number of days after a Monday. -/
def afterMonday (days : Nat) : Weekday :=
  match days % 7 with
  | 0 => monday
  | 1 => tuesday
  | 2 => wednesday
  | 3 => thursday
  | 4 => friday
  | 5 => saturday
  | _ => sunday

/-- The weekday with a given index, if the index is one of 0 to 6. -/
def ofIndex? (index : Int) : Option Weekday :=
  if 0 ≤ index ∧ index ≤ 6 then some (afterMonday index.toNat) else none

/-- The English name. -/
def name : Weekday → String
  | monday => "Monday"
  | tuesday => "Tuesday"
  | wednesday => "Wednesday"
  | thursday => "Thursday"
  | friday => "Friday"
  | saturday => "Saturday"
  | sunday => "Sunday"

theorem index_lt (w : Weekday) : w.index < 7 := by
  cases w <;> decide

theorem mem_all (w : Weekday) : w ∈ all := by
  cases w <;> decide

@[simp] theorem index_afterMonday (days : Nat) : (afterMonday days).index = days % 7 := by
  have h : days % 7 = 0 ∨ days % 7 = 1 ∨ days % 7 = 2 ∨ days % 7 = 3 ∨ days % 7 = 4
      ∨ days % 7 = 5 ∨ days % 7 = 6 := by omega
  rcases h with h | h | h | h | h | h | h <;> simp [afterMonday, index, h]

@[simp] theorem afterMonday_index (w : Weekday) : afterMonday w.index = w := by
  cases w <;> rfl

theorem index_inj {v w : Weekday} : v.index = w.index ↔ v = w := by
  constructor
  · intro h
    rw [← afterMonday_index v, h, afterMonday_index]
  · rintro rfl
    rfl

end Weekday

end Timetable
