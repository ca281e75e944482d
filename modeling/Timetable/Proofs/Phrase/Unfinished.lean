import Timetable.Proofs.Phrase.Continuations

/-! # Phrases that can be continued

The end of a text is reported only where the text can go on to a phrase, or at least to a time that is out
of range.  The latter is so exactly where the text ends within a time whose digits, as far as they go, leave
no hour from 1 to 12 or no minute up to 59 (`Block.ofPhrase_unexpectedEnd`). -/

namespace Timetable

namespace Grammar

open Text (isBlank)

variable {c : Char} {m n hour minute : Nat} {half : DayHalf} {q t u v w : List Char}

/-- The digits at the beginning of a time, as far as they go, leave no hour from 1 to 12 or no minute up
to 59. -/
inductive OutOfRange : List Char → Prop
  | zero {d : Char} {s : List Char} (hd : d.isDigit = false) : OutOfRange ('0' :: d :: s)
  | hour {c d : Char} {m n : Nat} {s : List Char} (hc : Digit c m) (hd : Digit d n)
      (hout : ¬ (1 ≤ 10 * m + n ∧ 10 * m + n ≤ 12)) : OutOfRange (c :: d :: s)
  | minute {c : Char} {n hour : Nat} {u s : List Char} (hu : HourDigits u hour) (hc : Digit c n)
      (hhigh : 6 ≤ n) : OutOfRange (u ++ ':' :: c :: s)

/-- The text is the beginning of a time as it is written, but not all of it. -/
def LiteralBegun (q : List Char) : Prop :=
  ∃ t hour minute half, t ≠ [] ∧ Literal (q ++ t) hour minute half

/-- The text ends within a time, and the digits of it leave no hour from 1 to 12 or no minute up to 59. -/
def EndsOutOfRange (text : List Char) : Prop :=
  ∃ pre q, text = pre ++ q ∧ TimeDue pre ∧ LiteralBegun q ∧ OutOfRange q

theorem Digit.unique (h : Digit c m) (h' : Digit c n) : m = n := by
  have heq := h.2.symm.trans h'.2
  omega

namespace OutOfRange

theorem append (h : OutOfRange q) (t : List Char) : OutOfRange (q ++ t) := by
  cases h with
  | zero hd => exact .zero hd
  | hour hc hd hout => exact .hour hc hd hout
  | minute hu hc hhigh =>
      rw [List.append_assoc]
      exact .minute hu hc hhigh

theorem exists_digit (h : OutOfRange q) : ∃ c n u, q = c :: u ∧ Digit c n := by
  cases h with
  | zero => exact ⟨'0', 0, _, rfl, Phrase.digit_zero⟩
  | hour hc => exact ⟨_, _, _, rfl, hc⟩
  | minute hu =>
      obtain ⟨c, n, u, rfl, hc⟩ := Phrase.exists_digit_of_hourDigits hu
      exact ⟨c, n, _, rfl, hc⟩

/-- No hour or no minute can come of them: a time that begins so is out of range. -/
theorem of_literal (h : OutOfRange w) (hw : Literal w hour minute half) :
    ¬ (1 ≤ hour ∧ hour ≤ 12) ∨ 59 < minute := by
  obtain @⟨u, v, w, c, hour, minute, half, hu, hv, hc, hw⟩ := hw
  have hreads := Phrase.reads_hourDigits hu (Phrase.head?_afterHour (w := w) hv hc)
  rw [List.append_assoc] at h
  generalize u ++ (v ++ c :: w) = text at h hreads
  cases h with
  | zero hd =>
      obtain ⟨rfl, -⟩ := hreads.unique (Phrase.reads_hourDigits (.one Phrase.digit_zero) (by simpa using hd))
      exact .inl (by decide)
  | hour hc hd hout =>
      obtain ⟨rfl, -⟩ := hreads.unique (Phrase.reads_hourDigits_two hc hd _)
      exact .inl hout
  | minute hu' hd hhigh =>
      obtain ⟨-, heq⟩ := hreads.unique (Phrase.reads_hourDigits hu' rfl)
      cases hv with
      | absent =>
          obtain rfl := (List.cons.inj heq).1
          exact absurd hc (by decide)
      | present hm hn =>
          obtain rfl := (List.cons.inj (List.cons.inj heq).2).1
          obtain rfl := hm.unique hd
          exact .inr (by omega)

end OutOfRange

/-! ### Times that can be completed -/

theorem exists_time_of_parts (hu : HourDigits u hour) (hhour : 1 ≤ hour ∧ hour ≤ 12)
    (hv : MinuteDigits v minute) (hminute : minute < 60) :
    ∃ x, Time (u ++ v ++ " AM".toList) x :=
  (Literal.mk hu hv (by decide) .am).exists_time hhour hminute

theorem exists_time_of_digit (hc : Digit c n) : ∃ t x, t ≠ [] ∧ Time (c :: t) x := by
  by_cases hzero : n = 0
  · have hone : Digit '1' 1 := Phrase.digit_iff.mpr ⟨rfl, rfl⟩
    obtain ⟨x, hx⟩ := exists_time_of_parts (.two hc hone) (by omega) .absent (by decide)
    exact ⟨_, x, by simp, hx⟩
  · have hlow := hc.1
    obtain ⟨x, hx⟩ := exists_time_of_parts (.one hc) (by omega) .absent (by decide)
    exact ⟨_, x, by simp, hx⟩

theorem exists_time_of_hourDigits (hu : HourDigits u hour) (hin : ¬ OutOfRange u) :
    ∃ t x, t ≠ [] ∧ Time (u ++ t) x := by
  cases hu with
  | one hc => exact exists_time_of_digit hc
  | two hc hd =>
      have hhour := not_not.mp fun hout => hin (.hour hc hd hout)
      obtain ⟨x, hx⟩ := exists_time_of_parts (.two hc hd) hhour .absent (by decide)
      exact ⟨" AM".toList, x, by decide, by simpa using hx⟩

/-- An hour that is not followed by a digit is all of the hour. -/
theorem hour_of_not_outOfRange {e : Char} (hu : HourDigits u hour) (he : e.isDigit = false)
    (hin : ¬ OutOfRange (u ++ e :: q)) : 1 ≤ hour ∧ hour ≤ 12 := by
  cases hu with
  | one hc =>
      have hne : hour ≠ 0 := by
        rintro rfl
        obtain rfl : _ = '0' := Char.toNat_inj.mp hc.2
        exact hin (.zero he)
      have hlow := hc.1
      omega
  | two hc hd => exact not_not.mp fun hout => hin (.hour hc hd hout)

/-- What begins a literal and is not out of range yet begins a time. -/
theorem LiteralBegun.exists_time (h : LiteralBegun q) (hin : ¬ OutOfRange q) :
    ∃ t x, t ≠ [] ∧ Time (q ++ t) x := by
  obtain ⟨t, hour, minute, half, ht, hw⟩ := h
  by_cases hrange : (1 ≤ hour ∧ hour ≤ 12) ∧ minute < 60
  · obtain ⟨x, hx⟩ := hw.exists_time hrange.1 hrange.2
    exact ⟨t, x, ht, hx⟩
  -- otherwise the digit that decides this stands behind the text
  obtain ⟨d, t, rfl⟩ := List.exists_cons_of_ne_nil ht
  generalize heq : q ++ d :: t = w at hw
  obtain @⟨u, v, w, c, hour, minute, half, hu, hv, hc, hw⟩ := hw
  rw [List.append_assoc] at heq
  rcases exists_of_append_eq_append_cons heq.symm with ⟨t', hq⟩ | ⟨q', rfl, hq'⟩
  · rcases q with _ | ⟨e, q⟩
    · obtain ⟨t, x, -, hx⟩ := exists_time_of_digit Phrase.digit_zero
      exact ⟨'0' :: t, x, List.cons_ne_nil _ _, hx⟩
    cases hu with
    | one => simp at hq
    | two hc hd =>
        obtain ⟨rfl, htail⟩ := List.cons.inj hq
        obtain rfl : q = [] := Read.eq_nil_of_singleton_eq htail
        exact exists_time_of_digit hc
  · rcases q' with _ | ⟨e, q'⟩
    · rw [List.append_nil] at hin ⊢
      exact exists_time_of_hourDigits hu hin
    have he := Phrase.head?_of_minute hv hc hq'
    have hhour := hour_of_not_outOfRange hu he hin
    cases hv with
    | absent => exact absurd ⟨hhour, by decide⟩ hrange
    | @present a b m n hm hn =>
        obtain ⟨rfl, htail⟩ := List.cons.inj hq'
        rcases q' with _ | ⟨f, q'⟩
        · obtain ⟨x, hx⟩ := exists_time_of_parts hu hhour (.present Phrase.digit_zero Phrase.digit_zero) (by decide)
          exact ⟨"00 AM".toList, x, by decide, by simpa using hx⟩
        obtain ⟨rfl, -⟩ := List.cons.inj htail
        have hlow : ¬ 6 ≤ m := fun hhigh => hin (.minute hu hm hhigh)
        have hdigit := hn.1
        exact absurd ⟨hhour, by omega⟩ hrange

/-- No literal begins a longer one. -/
theorem Literal.not_literalBegun (hw : Literal w hour minute half) : ¬ LiteralBegun w := by
  rintro ⟨t, hour', minute', half', ht, hw'⟩
  obtain ⟨d, t, rfl⟩ := List.exists_cons_of_ne_nil ht
  have hreads := Phrase.reads_fields hw []
  rw [List.append_nil] at hreads
  exact (Phrase.stops_fields hw' rfl).not_reads hreads

/-! ### Texts that end out of range -/

theorem throws_time_of_outOfRange (hq : LiteralBegun q) (hout : OutOfRange q) (s : List Char) :
    Read.Throws Phrase.time (q ++ s) fun _ => True := by
  intro r hr
  cases hrun : Phrase.time.run r with
  | error e => exact ⟨e, rfl, trivial⟩
  | ok result =>
      -- the literal that has been read would be longer or shorter than what begins it
      obtain ⟨w, hw, hrest⟩ := Phrase.sound_time hrun
      obtain ⟨hour, minute, half, hw, ht⟩ := Phrase.time_iff.mp hw
      rcases List.append_eq_append_iff.mp (hr.symm.trans hrest) with ⟨v, rfl, -⟩ | ⟨v, rfl, -⟩
      · have hrange := Phrase.timeOfFields_eq_ok_iff.mp ht
        rcases (hout.append v).of_literal hw with hhour | hminute
        · exact absurd hrange.1 hhour
        · exact absurd hrange.2.1 (by omega)
      · obtain ⟨t, hour', minute', half', hne, hlonger⟩ := hq
        rw [List.append_assoc] at hlonger
        exact absurd ⟨v ++ t, _, _, _, List.append_ne_nil_of_right_ne_nil v hne, hlonger⟩
          hw.not_literalBegun

theorem EndsOutOfRange.not_phrase {text : List Char} (h : EndsOutOfRange text) (s : List Char) (b : Block) :
    ¬ Phrase (text ++ s) b := by
  obtain ⟨pre, q, rfl, hpre, hbegun, hout⟩ := h
  obtain ⟨c, n, u, rfl, hc⟩ := hout.exists_digit
  intro hphrase
  have hthrows := Phrase.throws_phrase_of_timeDue hpre hc (throws_time_of_outOfRange hbegun hout s)
  rw [List.append_assoc] at hphrase
  exact hthrows.not_reads (Phrase.reads_phrase hphrase)

/-- With the rest of the literal, the time is out of range. -/
theorem EndsOutOfRange.exists_badTime {text : List Char} (h : EndsOutOfRange text) :
    ∃ t literal reason, t ≠ [] ∧ Read.Throws Phrase.phrase (text ++ t) (· = .badTime literal reason) := by
  obtain ⟨pre, q, rfl, hpre, ⟨t, hour, minute, half, ht, hw⟩, hout⟩ := h
  obtain ⟨reason, hreason⟩ : ∃ reason, Phrase.timeOfFields hour minute half = .error reason :=
    ⟨_, Phrase.timeOfFields_eq_error_iff.mpr ⟨(hout.append t).of_literal hw, rfl⟩⟩
  have hthrows := Phrase.throws_phrase_of_literal hpre hw hreason []
  refine ⟨t, String.ofList (q ++ t), reason, ht, ?_⟩
  simpa using hthrows

end Grammar

namespace Phrase

open Read Grammar

/-- Where the end of a text is reported, it begins a longer phrase or ends out of range. -/
theorem continues_of_unexpectedEnd {r : Reader} (h : phrase.run r = .error .unexpectedEnd) :
    (∃ t b, t ≠ [] ∧ Grammar.Phrase (r.rest ++ t) b) ∨ EndsOutOfRange r.rest := by
  cases fails_phrase h with
  | unfinished ht hphrase =>
      obtain ⟨b, hphrase⟩ := hphrase
      exact .inl ⟨_, b, ht, hphrase⟩
  | other htime =>
      obtain ⟨pre, r', hrest, hpre, hrun⟩ := htime
      have hbegun : LiteralBegun r'.rest := by
        cases fails_time hrun with
        | unfinished ht hw =>
            obtain ⟨hour, minute, half, hw⟩ := hw
            exact ⟨_, hour, minute, half, ht, hw⟩
        | other hbad => cases hbad
      by_cases hout : OutOfRange r'.rest
      · exact .inr ⟨pre, r'.rest, hrest, hpre, hbegun, hout⟩
      · obtain ⟨t, x, ht, hx⟩ := hbegun.exists_time hout
        obtain ⟨b, hb⟩ := hpre.exists_phrase hx
        refine .inl ⟨t, b, ht, ?_⟩
        rw [hrest, List.append_assoc]
        exact hb

end Phrase

/-- Where the end of a text is reported, the text can be continued to a phrase unless it ends within a time
that is out of range already; then it can be continued to the whole of this time. -/
theorem Block.ofPhrase_unexpectedEnd {text : String} (h : Block.ofPhrase text = .error .unexpectedEnd) :
    ((∃ s, s ≠ "" ∧ ∃ b, Block.ofPhrase (text ++ s) = .ok b) ↔ ¬ Grammar.EndsOutOfRange text.toList)
    ∧ (Grammar.EndsOutOfRange text.toList → ∃ s, s ≠ "" ∧ ∃ literal reason,
        Block.ofPhrase (text ++ s) = .error (.badTime literal reason)) := by
  have hne : text ≠ "" := by
    rintro rfl
    cases h
  have hrun := (Phrase.ofPhrase_eq_error_iff hne).mp h
  refine ⟨⟨?_, fun hout => ?_⟩, fun hout => ?_⟩
  · rintro ⟨s, -, b, hb⟩ hout
    have hphrase := Block.phrase_of_ofPhrase hb
    rw [String.toList_append] at hphrase
    exact hout.not_phrase s.toList b hphrase
  · rcases Phrase.continues_of_unexpectedEnd hrun with ⟨t, b, ht, hb⟩ | hout'
    · refine ⟨String.ofList t, by simpa using ht, b, ?_⟩
      apply Block.ofPhrase_of_phrase
      rw [String.toList_append, String.toList_ofList]
      exact hb
    · exact absurd hout' hout
  · obtain ⟨t, literal, reason, ht, hthrows⟩ := hout.exists_badTime
    obtain ⟨e, hrun', rfl⟩ := hthrows (Reader.ofText _) rfl
    refine ⟨String.ofList t, by simpa using ht, literal, reason, ?_⟩
    rw [Phrase.ofPhrase_eq_error_iff (by simp [hne]), String.toList_append, String.toList_ofList]
    exact hrun'

/-- The time is cut off behind the first digit of a minute above 59. -/
theorem Block.ofPhrase_eightSixty : Block.ofPhrase "at 8:6" = .error .unexpectedEnd
    ∧ Grammar.EndsOutOfRange "at 8:6".toList
    ∧ ¬ (∃ s, s ≠ "" ∧ ∃ b, Block.ofPhrase ("at 8:6" ++ s) = .ok b) := by
  have hrun : Block.ofPhrase "at 8:6" = .error .unexpectedEnd := by rfl
  have height : Grammar.Digit '8' 8 := Phrase.digit_iff.mpr ⟨rfl, rfl⟩
  have hsix : Grammar.Digit '6' 6 := Phrase.digit_iff.mpr ⟨rfl, rfl⟩
  have hout : Grammar.EndsOutOfRange "at 8:6".toList := by
    refine ⟨['a', 't', ' '], ['8', ':', '6'], rfl, .mk (by decide) .first, ?_,
      .minute (.one height) hsix le_rfl⟩
    exact ⟨['0', ' ', 'A', 'M'], _, _, _, by decide,
      .mk (v := [':', '6', '0']) (.one height) (.present hsix Phrase.digit_zero) (by decide) .am⟩
  exact ⟨hrun, hout, fun hcontinues => (Block.ofPhrase_unexpectedEnd hrun).1.mp hcontinues hout⟩

end Timetable
