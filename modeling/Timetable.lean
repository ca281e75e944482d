import Timetable.Text.Blank
import Timetable.Text.Uppercase
import Timetable.Text.DecimalDigit
import Timetable.Text.Printable
import Timetable.Text.Digits
import Timetable.Text.Quoted
import Timetable.Calendar.Weekday
import Timetable.Calendar.Gregorian
import Timetable.Calendar.Date
import Timetable.Calendar.TimeOfDay
import Timetable.Calendar.Offset
import Timetable.Calendar.Instant
import Timetable.Calendar.Iso8601
import Timetable.Block
import Timetable.Phrase.Fault
import Timetable.Phrase.Reader
import Timetable.Phrase.Wording
import Timetable.Phrase.Reading
import Timetable.LogEvent
import Timetable.Phrase.ReaderStep
import Timetable.Occurrence.Rule
import Timetable.Occurrence.Candidates
import Timetable.Calendar.OffsetNotation
import Timetable.Error
import Timetable.Settings
import Timetable.LogSetup
import Timetable.Clock
import Timetable.Occurrence.Iterator
import Timetable.Schedule
import Timetable.BlockSource
import Timetable.Session.State
import Timetable.Session.Step
import Timetable.Session.Perform
import Timetable.Memory.State
import Timetable.Memory.Perform
import Timetable.Text.ToUpper
import Timetable.Text.CaseShift
import Timetable.Proofs.Calendar.Months
import Timetable.Proofs.Calendar.Order
import Timetable.Proofs.Occurrence.Search
import Timetable.Proofs.Occurrence.WithinYear
import Timetable.Proofs.Occurrence.Window
import Timetable.Proofs.Occurrence.Settling
import Timetable.Proofs.Occurrence.Coverage
import Timetable.Proofs.Occurrence.Stepping
import Timetable.Proofs.Occurrence.Stream
import Timetable.Proofs.Occurrence.Entries
import Timetable.Proofs.Occurrence.WeekClause
import Timetable.Proofs.Phrase.Grammar
import Timetable.Proofs.Phrase.Readers
import Timetable.Proofs.Phrase.Times
import Timetable.Proofs.Phrase.Recognition
import Timetable.Proofs.Occurrence.Reach
import Timetable.Proofs.Occurrence.Merging
import Timetable.Proofs.Phrase.Rendering
import Timetable.Proofs.Occurrence.Advancing
import Timetable.Proofs.Occurrence.Indifference
import Timetable.Proofs.Occurrence.Retrying
import Timetable.Proofs.Phrase.Conjunctions
import Timetable.Proofs.Phrase.Failures
import Timetable.Proofs.Phrase.CutItems
import Timetable.Proofs.Phrase.Truncation
import Timetable.Proofs.Phrase.Blanks
import Timetable.Proofs.Occurrence.LocalTime
import Timetable.Proofs.Session.Sums
import Timetable.Proofs.Occurrence.Anchoring
import Timetable.Proofs.Occurrence.FastForward
import Timetable.Proofs.Settings.Keeping
import Timetable.Proofs.Occurrence.Asking
import Timetable.Proofs.Session.Moves
import Timetable.Proofs.Session.Effects
import Timetable.Proofs.Session.Frame
import Timetable.Proofs.Memory.Sharing
import Timetable.Proofs.Memory.Representation
import Timetable.Proofs.Memory.Simulation
import Timetable.Proofs.Memory.Refinement
import Timetable.Proofs.Calendar.MonthNumbers
import Timetable.Proofs.Occurrence.Arrangement
import Timetable.Proofs.Occurrence.Horizon
import Timetable.Proofs.Occurrence.OneEntry
import Timetable.Proofs.Occurrence.NthWeekday
import Timetable.Proofs.Occurrence.Monthly
import Timetable.Proofs.Calendar.IsoWeeks
import Timetable.Proofs.Occurrence.EveryOtherWeek
import Timetable.Proofs.Occurrence.EveryDay
import Timetable.Proofs.Phrase.Lookahead
import Timetable.Proofs.Phrase.DueTimes
import Timetable.Proofs.Phrase.Continuations
import Timetable.Proofs.Phrase.Unfinished
import Timetable.Proofs.Phrase.BadTimes
import Timetable.Proofs.Phrase.Places
import Timetable.Proofs.Text.Quoting
import Timetable.Proofs.Phrase.Descriptions
import Timetable.Proofs.Phrase.ReaderCourse
import Timetable.Proofs.Text.UpperCase
import Timetable.Proofs.Calendar.WrittenOffsets
