/-! # Decimal notation with a fixed number of places

`padded width n` writes the last `width` decimal places of `n`, with leading zeros; `asciiValue?`
reads the value of an ASCII digit and `readDigits?` that of a run of them. -/

namespace Timetable.Text

/-- The last `width` decimal places of `n`. -/
def padded : Nat → Nat → List Char
  | 0, _ => []
  | width + 1, n => padded width (n / 10) ++ [Nat.digitChar (n % 10)]

@[simp] theorem length_padded (width n : Nat) : (padded width n).length = width := by
  induction width generalizing n with
  | zero => rfl
  | succ w ih => simp [padded, ih]

/-- The value of an ASCII digit. -/
def asciiValue? (c : Char) : Option Nat :=
  if c.isDigit then some (c.toNat - 48) else none

/-- The number that a run of ASCII digits writes, the highest place first. -/
def readDigits? (digits : List Char) : Option Nat :=
  digits.foldlM (fun n c => (asciiValue? c).map (10 * n + ·)) 0

end Timetable.Text
