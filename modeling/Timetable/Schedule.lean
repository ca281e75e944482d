import Timetable.Occurrence.Iterator

/-! # Schedules

A schedule is a plan with the instant at which its occurrences begin.  A sum of schedules merges
their blocks and begins where the left one does.  Two schedules are the same if they begin at the
same moment, have the same blocks in the same order, and are both merged or both not. -/

namespace Timetable

/-- A plan and the instant at which its occurrences begin. -/
structure Schedule where
  base : Moment
  plan : Plan
deriving DecidableEq, Repr

/-- The plan that merges a list of blocks, if there are any. -/
def Plan.ofBlocks? (blocks : List Block) : Option Plan :=
  if h : blocks = [] then none else some (.merged blocks h)

/-- The plan that merges the blocks of two plans. -/
def Plan.append (p q : Plan) : Plan :=
  .merged (p.blocks ++ q.blocks) fun h => p.blocks_ne (List.append_eq_nil_iff.mp h).1

@[simp] theorem Plan.blocks_append (p q : Plan) : (p.append q).blocks = p.blocks ++ q.blocks := rfl

namespace Schedule

/-- The schedule of several blocks. -/
def ofBlocks (base : Moment) (blocks : List Block) : Except Error Schedule :=
  match Plan.ofBlocks? blocks with
  | some plan => .ok ⟨base, plan⟩
  | none => .error .nothingToSchedule

/-- The blocks of both schedules, from the start of the left one. -/
def add (a b : Schedule) : Schedule :=
  ⟨a.base, a.plan.append b.plan⟩

instance : Add Schedule := ⟨add⟩

/-- The schedule with the blocks of another one after its own. -/
def extendedBy (a b : Schedule) : Schedule :=
  { a with plan := a.plan.append b.plan }

/-- The same moment, the same blocks, and the same kind of plan. -/
def same (a b : Schedule) : Bool :=
  a.base.same b.base && decide (a.plan = b.plan)

/-- An iterator from the start of the schedule, which skips what is past and follows local time. -/
def iterator (s : Schedule) : Except Error Iterator :=
  Iterator.startingAt s.plan s.base true none

end Schedule

end Timetable
