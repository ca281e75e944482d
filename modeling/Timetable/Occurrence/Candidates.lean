import Timetable.Occurrence.Rule
import Timetable.Error

/-! # Candidates for the next occurrence

For a block and a cursor, the instants among which the next occurrence of the block is found.  Each
time of day stands on each of the seven days from the cursor's date, and a week later where it would
not be after the cursor.  If the block names weekdays, only the dates on these are kept, and each is
moved forward week by week until it satisfies the entry's rule.  Entries of one weekday share their
date: an entry goes on from where the entry before it has moved the date.

The candidates come in the order of the times, then of the days, then of the entries, and are
written at the cursor's offset.  There are none when the calendar ends before all of them are
found. -/

namespace Timetable

/-- The seven dates, one for each weekday, on which a time of day comes next after the cursor. -/
def Instant.datesAfter? (cursor : Instant) (time : TimeOfDay) : Option (List Date) :=
  (List.range 7).mapM fun days => do
    let date ← cursor.date.addDays? days
    if (⟨date, time, cursor.offset⟩ : Instant) ≤ cursor then date.addDays? 7 else some date

/-- The dates that the entries of a list make of one date: each entry of its weekday moves it on. -/
def Date.settle? (parity : Option Parity) : List Entry → Date → Option (List Date)
  | [], _ => some []
  | e :: es, d =>
    if e.weekday = d.weekday then do
      let found ← Rule.firstFrom? ⟨e.modifier, parity⟩ d
      let rest ← Date.settle? parity es found
      return found :: rest
    else Date.settle? parity es d

namespace Block

/-- The dates on which a time of day of the block may come next. -/
def candidateDates? (b : Block) (cursor : Instant) (time : TimeOfDay) : Option (List Date) := do
  let dates ← cursor.datesAfter? time
  match b.days with
  | none => return dates
  | some entries => do
    let settled ← dates.mapM (Date.settle? b.weeks entries)
    return settled.flatten

/-- The candidates for the next occurrence of the block after the cursor. -/
def candidates? (b : Block) (cursor : Instant) : Option (List Instant) := do
  let perTime ← b.times.mapM fun time => do
    let dates ← b.candidateDates? cursor time
    return dates.map fun date => (⟨date, time, cursor.offset⟩ : Instant)
  return perTime.flatten

/-- The candidates after a moment, which must have an offset. -/
def candidatesAfter (b : Block) (m : Moment) : Except Error (List Instant) := do
  let cursor ← m.aware .cursor
  orOutOfCalendar (b.candidates? cursor)

end Block

/-- One block on its own, or several whose occurrences are merged. -/
inductive Plan where
  | single (block : Block)
  | merged (blocks : List Block) (blocks_ne : blocks ≠ [])
deriving DecidableEq, Repr

namespace Plan

/-- The blocks, in order. -/
def blocks : Plan → List Block
  | single block => [block]
  | merged blocks _ => blocks

/-- Are several blocks merged? -/
def isMerged : Plan → Bool
  | single _ => false
  | merged _ _ => true

/-- The candidates of all blocks. -/
def candidates? (p : Plan) (cursor : Instant) : Option (List Instant) := do
  let perBlock ← p.blocks.mapM fun block : Block => block.candidates? cursor
  return perBlock.flatten

theorem blocks_ne (p : Plan) : p.blocks ≠ [] := by
  cases p with
  | single b => simp [blocks]
  | merged bs h => exact h

end Plan

/-- The earliest instant of a list, and of several equally early ones the first. -/
def earliest? : List Instant → Option Instant
  | [] => none
  | i :: is => some (is.foldl (fun best j => if j < best then j else best) i)

end Timetable
