import Timetable.Occurrence.Candidates
import Timetable.Clock

/-! # Iterators over occurrences

An iterator stands at an instant, its cursor, and moves forward through the occurrences of a plan
without end.  Unless told otherwise it first skips what is past by the clock.  It looks for
occurrences at an assumed offset, or else at local time.  A cursor that was given is first written
at the assumed offset; one that a step has reached under this offset is taken as it is, also where
UTC would be outside the calendar (`cursor?_of_reached`).

`Iterator.choose` finds the next occurrence and moves nothing.  `Iterator.next` moves the cursor
there; if the occurrence cannot be found, it gives back the iterator as it was, so that the step can
be tried again.  `Iterator.take` makes several steps; if one fails, the steps before it stay
made. -/

namespace Timetable

/-- An iterator over the occurrences of a plan. -/
structure Iterator where
  plan : Plan
  current : Instant
  skipOutdated : Bool
  offset : Option Offset
  /-- Has a step reached the cursor since the offset was last told? -/
  reached : Bool
deriving DecidableEq, Repr

namespace Iterator

/-- An iterator that begins at a moment, which must have an offset. -/
def startingAt (plan : Plan) (start : Moment) (skipOutdated : Bool) (offset : Option Offset) :
    Except Error Iterator :=
  (start.aware .start).map fun current => ⟨plan, current, skipOutdated, offset, false⟩

/-- The cursor, at the assumed offset if there is one. -/
def cursor? (it : Iterator) : Option Instant :=
  match it.offset with
  | some offset => if it.reached then some it.current else it.current.inOffset? offset
  | none => some it.current

theorem cursor?_of_reached {it : Iterator} (h : it.reached = true) :
    it.cursor? = some it.current := by
  cases ho : it.offset <;> simp [cursor?, ho, h]

/-- The current instant, at the assumed offset or else at the local one. -/
def present (it : Iterator) : Action Instant :=
  match it.offset with
  | some offset => Clock.now offset
  | none => Clock.nowLocal

/-- The instant after which to look: the cursor, or the current instant if that is later and what is
past is skipped. -/
def start (it : Iterator) : Action Instant := do
  let cursor ← orOutOfCalendar it.cursor?
  if it.skipOutdated then
    let now ← it.present
    if cursor < now then
      Action.report .debug ("Fast-forwarding from " ++ String.ofList cursor.toText ++ " to "
        ++ String.ofList now.toText)
      return now
    else
      return cursor
  else
    return cursor

/-- The next occurrence. -/
def choose (it : Iterator) : Action Instant := do
  let cursor ← it.start
  let candidates ← orOutOfCalendar (it.plan.candidates? cursor)
  let next ← orOutOfCalendar (earliest? candidates)
  Action.report .debug ("Selected " ++ String.ofList next.toText ++ " out of "
    ++ toString candidates.length ++ " candidates")
  return next

/-- Moves to the next occurrence.  A failure leaves the iterator as it is. -/
def next (it : Iterator) : StateM Scene (Except Error Instant × Iterator) := do
  match ← it.choose.run with
  | .ok next => return (.ok next, { it with current := next, reached := true })
  | .error error => return (.error error, it)

/-- Moves on by `count` occurrences.  A failure leaves the iterator at the last one before it. -/
def take (it : Iterator) : Nat → StateM Scene (Except Error (List Instant) × Iterator)
  | 0 => return (.ok [], it)
  | count + 1 => do
    match ← it.next with
    | (.error error, it) => return (.error error, it)
    | (.ok next, it) =>
      match ← it.take count with
      | (.error error, it) => return (.error error, it)
      | (.ok rest, it) => return (.ok (next :: rest), it)

/-- The same iterator, told whether to skip what is past. -/
def withSkipOutdated (it : Iterator) (skip : Bool) : Iterator :=
  { it with skipOutdated := skip }

/-- The same iterator, with an assumed offset. -/
def assumeOffset (it : Iterator) (offset : Offset) : Iterator :=
  { it with offset := some offset, reached := false }

/-- The same iterator, without an assumed offset. -/
def useLocalOffset (it : Iterator) : Iterator :=
  { it with offset := none, reached := false }

end Iterator

end Timetable
