import Timetable.Proofs.Phrase.Lookahead
import Timetable.Proofs.Phrase.Truncation

/-! # Where a time is due

In a phrase a time is due behind the word `at` and behind a separator of its list of times
(`Grammar.TimeDue`).  The reader of a phrase, when it comes to such a place, reads a time there, so that an
error of this time is one of the phrase (`Phrase.throws_phrase_of_timeDue`).  A literal is read to its end
before it is judged; if it is out of range, the error names just the literal, whatever follows it
(`Phrase.throws_time_of_literal`). -/

namespace Timetable

namespace Grammar

open Text (isBlank)

variable {α : Type} {Item : List Char → α → Prop} {u v s : List Char} {x : α} {xs : List α}

/-- Behind the text an item of a list is due: it is the first one, or there is a separator before it. -/
inductive ItemDue {α : Type} (Item : List Char → α → Prop) : List Char → Prop
  | first : ItemDue Item []
  | next {u s : List Char} {xs : List α} (hu : Items Item u xs) (hs : Separator s) : ItemDue Item (u ++ s)

/-- The text is the beginning of a phrase, up to a place where a time is due. -/
inductive TimeDue : List Char → Prop
  | mk {c : Char} {u : List Char} (hc : isBlank c = true) (hu : ItemDue Time u) :
      TimeDue ('a' :: 't' :: c :: u)

theorem Items.append (hu : Items Item u xs) (hs : Separator s) (hx : Item v x) :
    Items Item (u ++ s ++ v) (xs ++ [x]) := by
  induction hu with
  | one hy => exact .more hy hs (.one hx)
  | more hy hs' _ ih =>
      have hmore := Items.more hy hs' ih
      simpa using hmore

theorem ItemDue.exists_items (hu : ItemDue Item u) (hx : Item v x) : ∃ xs, Items Item (u ++ v) xs := by
  cases hu with
  | first => exact ⟨[x], .one hx⟩
  | next hu hs => exact ⟨_, hu.append hs hx⟩

/-- A literal is a time if there are such an hour and such a minute. -/
theorem Literal.exists_time {w : List Char} {hour minute : Nat} {half : DayHalf}
    (hw : Literal w hour minute half) (hhour : 1 ≤ hour ∧ hour ≤ 12) (hminute : minute < 60) :
    ∃ t, Time w t := by
  refine ⟨.ofTwelveHour hour minute half hminute, Phrase.time_iff.mpr ⟨hour, minute, half, hw, ?_⟩⟩
  rw [Phrase.timeOfFields, if_pos hhour, dif_pos hminute]

end Grammar

namespace Phrase

open Text Read Grammar

variable {s w : List Char} {hour minute : Nat} {half : DayHalf} {reason : String}

/-! ### Literals -/

theorem located_eatDigit : Located eatDigit :=
  .eatWhere _ _

theorem consumes_eatDigit : Consumes 1 eatDigit :=
  .eatWhere _ _

theorem located_hourDigits : Located hourDigits := by
  refine located_eatDigit.bind fun a => ?_
  exact .ite_head (decidedBy_class Char.isDigit) (located_eatDigit.bind fun b => .pure _) (.pure _)
    (consumes_eatDigit.bind fun b => .of_located (.pure _))

theorem located_minuteDigits : Located minuteDigits := by
  have hdigits : Located (do
      let a ← eatDigit
      let b ← eatDigit
      return 10 * digitValue a + digitValue b) :=
    located_eatDigit.bind fun _ => located_eatDigit.bind fun _ => .pure _
  exact .ite_head (decidedBy_char ':') ((Located.eatChar _ _).bind fun _ => hdigits) (.pure 0)
    ((Consumes.eatChar _ _).bind fun _ => .of_located hdigits)

theorem located_fields : Located fields :=
  located_hourDigits.bind fun _ => located_minuteDigits.bind fun _ => Located.eatBlank.bind fun _ =>
    (Located.eatEntry _ (by decide) (by decide) (by decide)).bind fun _ => .pure _

/-! ### Literals out of range -/

/-- What is wrong with a time: the hour if it is out of range, and otherwise the minute. -/
theorem timeOfFields_eq_error_iff : timeOfFields hour minute half = .error reason ↔
    (¬ (1 ≤ hour ∧ hour ≤ 12) ∨ 59 < minute)
      ∧ reason = if 1 ≤ hour ∧ hour ≤ 12 then "minute must be between 00 and 59"
        else "hour must be between 1 and 12" := by
  unfold timeOfFields
  by_cases hhour : 1 ≤ hour ∧ hour ≤ 12
  · by_cases hminute : minute < 60
    · rw [if_pos hhour, dif_pos hminute]
      exact iff_of_false nofun fun h => h.1.elim (absurd hhour) fun hhigh => by omega
    · rw [if_pos hhour, dif_neg hminute, if_pos hhour, Except.error.injEq, eq_comm]
      exact (and_iff_right (.inr (by omega))).symm
  · rw [if_neg hhour, if_neg hhour, Except.error.injEq, eq_comm]
    exact (and_iff_right (.inl hhour)).symm

theorem textSince_advance (passed w s : List Char) :
    (⟨w.reverse ++ passed, s⟩ : Reader).textSince passed.length = w := by
  have hlower : ¬ ((passed.length : Int) < 0) := by omega
  have htext : (w.reverse ++ passed).reverse ++ s = passed.reverse ++ w ++ s := by simp
  simp only [Reader.textSince, Reader.text, Reader.position, if_neg hlower, Int.toNat_natCast, htext]
  rw [List.take_left' (by simp [Nat.add_comm]), List.drop_left' (by simp)]

/-- The error of a literal that is out of range is judged once the literal has been read. -/
theorem run_time_of_literal (hw : Literal w hour minute half) (passed s : List Char) :
    time.run ⟨passed, w ++ s⟩ = match timeOfFields hour minute half with
      | .ok t => .ok (t, ⟨w.reverse ++ passed, s⟩)
      | .error reason => .error (.badTime (String.ofList w) reason) := by
  have hfields := located_fields.run_of_reads (reads_fields hw s) passed
  rw [time_eq, run_get_bind, run_bind_of_ok hfields]
  unfold judge
  cases timeOfFields hour minute half with
  | ok t => rfl
  | error reason =>
      have htext := textSince_advance passed w s
      change Except.error (PhraseError.badTime (String.ofList (Reader.textSince _ _)) reason) = _
      rw [Reader.position, htext]

theorem throws_time_of_literal (hw : Literal w hour minute half)
    (hreason : timeOfFields hour minute half = .error reason) (s : List Char) :
    Throws time (w ++ s) (· = .badTime (String.ofList w) reason) := by
  rintro ⟨passed, rest⟩ rfl
  refine ⟨_, ?_, rfl⟩
  rw [run_time_of_literal hw, hreason]

/-! ### Phrases up to a time -/

/-- An error of the time that is due is one of the phrase. -/
theorem throws_phrase_of_timeDue {pre : List Char} {c : Char} {n : Nat} {E : PhraseError → Prop}
    (hpre : TimeDue pre) (hc : Digit c n) (h : Throws time (c :: s) E) :
    Throws phrase (pre ++ c :: s) E := by
  obtain @⟨b, u, hb, hu⟩ := hpre
  refine (reads_eatWord "at".toList (b :: (u ++ c :: s))).bind_throws
    ((reads_eatBlank hb _).bind_throws (Throws.bind ?_))
  cases hu with
  | first =>
      intro r hr
      rw [run_times_of_digit hc hr]
      exact h.bind r hr
  | @next u sep ts hts hsep =>
      have hitems : Throws (items time) (u ++ (sep ++ c :: s)) E :=
        throws_items (F := fun _ => True) (fun hw _ => reads_time hw) (fun _ => trivial) hts trivial
          (by simp) fun limit => (reads_separator hsep _).bind_throws h.bind
      obtain ⟨d, m, u, rfl, hd⟩ := exists_digit_of_times hts
      rw [List.append_assoc]
      intro r hr
      rw [run_times_of_digit hd hr]
      exact hitems r hr

/-- A literal that is out of range, where a time is due, is the error of the phrase. -/
theorem throws_phrase_of_literal {pre : List Char} (hpre : TimeDue pre) (hw : Literal w hour minute half)
    (hreason : timeOfFields hour minute half = .error reason) (s : List Char) :
    Throws phrase (pre ++ (w ++ s)) (· = .badTime (String.ofList w) reason) := by
  have htime := throws_time_of_literal hw hreason s
  obtain ⟨c, n, u, rfl, hc⟩ := exists_digit_of_literal hw
  exact throws_phrase_of_timeDue hpre hc htime

end Phrase

end Timetable
