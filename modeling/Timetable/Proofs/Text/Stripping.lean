import Mathlib.Data.List.TakeWhile
import Timetable.Text.Blank

/-! # Stripped texts

A stripped text is what is left between the blanks at the two ends of a text: it neither begins nor ends
with a blank itself, and there is only one such part (`strip_eq_iff`).  Nothing is left of a text exactly if
all of it is blank (`strip_eq_nil_iff`). -/

namespace Timetable.Text

/-- Between blanks at the two ends of the text there is the inner part, which neither begins nor ends with
one. -/
structure StripsTo (text inner : List Char) : Prop where
  within : ∃ before after, text = before ++ inner ++ after
    ∧ (∀ c ∈ before, isBlank c = true) ∧ ∀ c ∈ after, isBlank c = true
  head : ∀ c, inner.head? = some c → isBlank c = false
  last : ∀ c, inner.getLast? = some c → isBlank c = false

variable {text inner : List Char}

theorem isBlank_of_mem_takeWhile {c : Char} (h : c ∈ text.takeWhile isBlank) : isBlank c = true :=
  List.mem_takeWhile_imp h

theorem isBlank_of_head?_dropWhile {c : Char} (h : (text.dropWhile isBlank).head? = some c) :
    isBlank c = false := by
  have hnot := List.head?_dropWhile_not isBlank text
  rw [h] at hnot
  simpa using hnot

theorem dropWhile_of_head? (h : ∀ c, text.head? = some c → isBlank c = false) :
    text.dropWhile isBlank = text := by
  cases text with
  | nil => rfl
  | cons c cs => rw [List.dropWhile_cons_of_neg (by simp [h c rfl])]

theorem stripsTo_strip (text : List Char) : StripsTo text (strip text) := by
  have hparts : text.dropWhile isBlank
      = strip text ++ ((text.dropWhile isBlank).reverse.takeWhile isBlank).reverse := by
    rw [strip, ← List.reverse_append, List.takeWhile_append_dropWhile, List.reverse_reverse]
  refine ⟨⟨text.takeWhile isBlank, ((text.dropWhile isBlank).reverse.takeWhile isBlank).reverse, ?_,
    fun c hc => isBlank_of_mem_takeWhile hc, ?_⟩, ?_, ?_⟩
  · rw [List.append_assoc, ← hparts, List.takeWhile_append_dropWhile]
  · exact fun c hc => isBlank_of_mem_takeWhile (List.mem_reverse.mp hc)
  · intro c hc
    apply isBlank_of_head?_dropWhile
    rw [hparts, List.head?_append, hc]
    rfl
  · intro c hc
    rw [strip, List.getLast?_reverse] at hc
    exact isBlank_of_head?_dropWhile hc

theorem strip_eq_iff : strip text = inner ↔ StripsTo text inner := by
  constructor
  · rintro rfl
    exact stripsTo_strip text
  · rintro ⟨⟨before, after, rfl, hbefore, hafter⟩, hhead, hlast⟩
    rw [strip, List.append_assoc, List.dropWhile_append_of_pos hbefore]
    cases inner with
    | nil =>
        rw [List.nil_append, List.dropWhile_eq_nil_iff.mpr hafter]
        rfl
    | cons c cs =>
        have hafter' : ∀ c ∈ after.reverse, isBlank c = true := fun c hc =>
          hafter c (List.mem_reverse.mp hc)
        have hlast' : ∀ d, (c :: cs).reverse.head? = some d → isBlank d = false := fun d hd =>
          hlast d (by rw [← List.head?_reverse]; exact hd)
        have hhead' : ∀ d, (c :: cs ++ after).head? = some d → isBlank d = false := hhead
        rw [dropWhile_of_head? hhead', List.reverse_append, List.dropWhile_append_of_pos hafter',
          dropWhile_of_head? hlast', List.reverse_reverse]

theorem strip_eq_nil_iff : strip text = [] ↔ ∀ c ∈ text, isBlank c = true := by
  rw [strip_eq_iff]
  constructor
  · rintro ⟨⟨before, after, rfl, hbefore, hafter⟩, -, -⟩ c hc
    rw [List.append_nil] at hc
    exact (List.mem_append.mp hc).elim (hbefore c) (hafter c)
  · intro h
    exact ⟨⟨text, [], by simp, h, by simp⟩, nofun, nofun⟩

end Timetable.Text
