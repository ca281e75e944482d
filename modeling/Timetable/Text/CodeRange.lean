/-! # Ranges of code points

A class of characters is written down as a list of arithmetic progressions of code points
(`CodeRange`).  A step above one is for the many alphabets in which the two cases of a letter
alternate.  `inRanges` is the class that a list describes; `mem_inRanges` says so. -/

namespace Timetable.Text

/-- The code points `first`, `first + step`, `first + 2 * step`, … that do not exceed `last`. -/
structure CodeRange where
  first : Nat
  last : Nat
  step : Nat
deriving DecidableEq, Repr

namespace CodeRange

/-- Is the code point of `c` in the progression? -/
def contains (r : CodeRange) (c : Char) : Bool :=
  decide (r.first ≤ c.toNat) && decide (c.toNat ≤ r.last)
    && decide ((c.toNat - r.first) % r.step = 0)

theorem contains_iff {r : CodeRange} {c : Char} :
    r.contains c = true ↔
      r.first ≤ c.toNat ∧ c.toNat ≤ r.last ∧ (c.toNat - r.first) % r.step = 0 := by
  simp [contains, and_assoc]

end CodeRange

/-- Is `c` in one of the ranges? -/
def inRanges (ranges : List CodeRange) (c : Char) : Bool :=
  ranges.any (·.contains c)

theorem mem_inRanges {ranges : List CodeRange} {c : Char} :
    inRanges ranges c = true ↔ ∃ r ∈ ranges, r.contains c = true := by
  simp [inRanges]

end Timetable.Text
