import Timetable.Block
import Timetable.Calendar.Date

/-! # Rules on dates

A rule restricts the dates of one weekday: to one occurrence in each month, to weeks of one parity,
or to both.  The first to the fourth occurrence are those in the first to the fourth seven days of
the month; the last one is the one whose successor lies in another month.  At the very end of the
calendar that successor does not exist, and the question has no answer.

`Rule.firstFrom?` goes from a date forward, week by week, to the first that satisfies the rule. -/

namespace Timetable

/-- Is a date, within its month, the given occurrence of its weekday?  No answer if that depends on
a date past the calendar. -/
def Modifier.holds? (m : Modifier) (d : Date) : Option Bool :=
  match m with
  | .first => some (decide (1 ≤ d.day) && decide (d.day ≤ 7))
  | .second => some (decide (8 ≤ d.day) && decide (d.day ≤ 14))
  | .third => some (decide (15 ≤ d.day) && decide (d.day ≤ 21))
  | .fourth => some (decide (22 ≤ d.day) && decide (d.day ≤ 28))
  | .last => (d.addDays? 7).map fun next => decide (next.month ≠ d.month)

/-- A restriction to one occurrence in each month and to weeks of one parity; a missing part
restricts nothing. -/
structure Rule where
  modifier : Option Modifier
  parity : Option Parity
deriving DecidableEq, Repr

namespace Rule

/-- Is the date an occurrence that the rule allows? -/
def modifierHolds? (rule : Rule) (d : Date) : Option Bool :=
  match rule.modifier with
  | none => some true
  | some m => m.holds? d

/-- Is the date in a week that the rule allows? -/
def parityHolds (rule : Rule) (d : Date) : Bool :=
  match rule.parity with
  | none => true
  | some p => p.holds d.week

/-- Does the date satisfy the rule? -/
def holds? (rule : Rule) (d : Date) : Option Bool :=
  (rule.modifierHolds? d).map (· && rule.parityHolds d)

/-- The first of the dates `d`, a week after `d`, two weeks after `d`, … that satisfies the rule. -/
def firstFrom? (rule : Rule) (d : Date) : Option Date :=
  match rule.holds? d with
  | none => none
  | some true => some d
  | some false =>
    match _ : d.addDays? 7 with
    | none => none
    | some next => rule.firstFrom? next
termination_by lastDay - d.number
decreasing_by
  have := Date.addDays?_eq_some_iff.mp ‹_›
  have := next.le_last
  omega

/-- The numbers `n` below `days` such that the date `n` days after `d` satisfies the rule. -/
def holdsWithin? (rule : Rule) (d : Date) (days : Nat) : Option (List Nat) := do
  let answers ← (List.range days).mapM fun n => do
    let date ← d.addDays? n
    let answer ← rule.holds? date
    return (n, answer)
  return (answers.filter (·.2)).map (·.1)

end Rule

end Timetable
