import Timetable.Error
import Timetable.LogEvent

/-! # Sources of blocks

A block is given by a phrase or by its parts.  From parts, the weekday entries are made before the
block, so that a wrong weekday is found before a missing time.  Making a block is a `Reported`
computation: the reading of a phrase is reported, whether it succeeds or not. -/

namespace Timetable

/-- A computation that may fail, with a record of what it reports. -/
abbrev Reported := ExceptT Error (StateM (List LogEvent))

namespace Reported

/-- Adds events to the record. -/
def report (events : List LogEvent) : Reported Unit :=
  modify (· ++ events)

/-- The result, and what has been reported. -/
def outcome {α : Type} (c : Reported α) : Except Error α × List LogEvent :=
  (ExceptT.run c).run []

end Reported

/-- What a block is made of. -/
inductive BlockSource where
  | phrase (text : String)
  | parts (times : List TimeOfDay) (days : Option (List (Int × Option Modifier)))
      (weeks : Option Parity)
deriving DecidableEq, Repr

/-- The block with the given parts, its weekdays given by their indices. -/
def Block.ofIndices (times : List TimeOfDay) (days : Option (List (Int × Option Modifier)))
    (weeks : Option Parity) : Except BlockError Block := do
  let entries ← days.mapM fun days => days.mapM fun (index, modifier) =>
    Entry.ofIndex index modifier
  Block.ofParts times entries weeks

/-- Makes the block. -/
def BlockSource.build : BlockSource → Reported Block
  | phrase text => do
    let result := Block.ofPhrase text
    Reported.report (LogEvent.ofReading text result)
    result.mapError Error.phrase
  | parts times days weeks =>
    (Block.ofIndices times days weeks).mapError Error.block

/-- Writes a block as a phrase and reads it again. -/
def Block.reread (b : Block) : Reported Block :=
  (BlockSource.phrase (toString b)).build

end Timetable
