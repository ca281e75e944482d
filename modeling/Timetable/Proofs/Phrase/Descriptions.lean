import Mathlib
import Timetable.Phrase.Fault
import Timetable.Proofs.Text.Quoting

/-! # Descriptions of faults

The description of a fault can be read again: its position is written up to a comma, which is no part of a
number, and both of its texts are quoted.  So no text can be mistaken for the end of a field, and faults with
one description are the same fault (`SyntaxFault.describe_eq_describe_iff`). -/

namespace Timetable

open Text

theorem comma_not_mem_repr (n : Int) : ',' ∉ n.repr.toList := by
  have hdigits (k : Nat) : ',' ∉ k.repr.toList := by
    intro hmem
    rw [Nat.toList_repr] at hmem
    exact absurd (Nat.isDigit_of_mem_toDigits (by decide) (by decide) hmem) (by decide)
  rw [Int.repr_eq_if]
  split
  · exact hdigits _
  · rw [String.toList_append, List.mem_append, not_or]
    exact ⟨by decide, hdigits _⟩

/-- An integer is known from its notation up to a comma. -/
theorem selfDelimiting_repr : SelfDelimiting fun n : Int => n.repr.toList ++ [','] :=
  .closed (fun _ _ heq => Int.repr_injective (String.toList_inj.mp heq)) comma_not_mem_repr

namespace SyntaxFault

/-- The description in its parts, each of which can be told from what follows. -/
theorem describe_eq (fault : SyntaxFault) :
    fault.describe = "ExpressionSyntaxError(position="
      ++ (String.ofList (fault.position.repr.toList ++ [',']) ++ (" expected="
      ++ (String.ofList (quoted fault.expected.toList) ++ (", continues="
      ++ (String.ofList (quoted fault.continues.toList) ++ ")"))))) := by
  have hposition : String.ofList (fault.position.repr.toList ++ [',']) = fault.position.repr ++ "," := by
    rw [String.ofList_append, String.ofList_toList]
  have hexpected : ", expected=" = "," ++ " expected=" := by decide
  unfold describe
  rw [hposition, hexpected, Int.toString_eq_repr]
  simp only [String.append_assoc]

/-- Faults are described alike exactly if they are the same error, that is, if the place, what was expected
and what was met agree. -/
theorem describe_eq_describe_iff (fault fault' : SyntaxFault) :
    (fault.describe = fault'.describe
        ↔ PhraseError.unexpectedText fault = PhraseError.unexpectedText fault')
      ∧ (PhraseError.unexpectedText fault = PhraseError.unexpectedText fault'
        ↔ fault.position = fault'.position ∧ fault.expected = fault'.expected
          ∧ fault.continues = fault'.continues) := by
  have hfields : PhraseError.unexpectedText fault = PhraseError.unexpectedText fault'
      ↔ fault.position = fault'.position ∧ fault.expected = fault'.expected
        ∧ fault.continues = fault'.continues := by
    cases fault
    cases fault'
    rw [PhraseError.unexpectedText.injEq, SyntaxFault.mk.injEq]
  refine ⟨⟨fun heq => hfields.mpr ?_, fun heq => ?_⟩, hfields⟩
  · rw [describe_eq, describe_eq, String.append_right_inj] at heq
    obtain ⟨hposition, heq⟩ := selfDelimiting_repr.ofList_append_inj heq
    obtain ⟨hexpected, heq⟩ := selfDelimiting_quoted.ofList_append_inj ((String.append_right_inj _).mp heq)
    obtain ⟨hcontinues, -⟩ := selfDelimiting_quoted.ofList_append_inj ((String.append_right_inj _).mp heq)
    exact ⟨hposition, String.toList_inj.mp hexpected, String.toList_inj.mp hcontinues⟩
  · exact congrArg describe (PhraseError.unexpectedText.inj heq)

end SyntaxFault

end Timetable
