import Timetable.Proofs.Phrase.Blanks
import Timetable.Proofs.Phrase.Continuations

/-! # Times that are out of range

A time is due exactly behind a blank with which `12 AM` makes a phrase (`Grammar.timeDue_iff`).  A text
therefore fails for a bad time exactly if a literal stands in such a place whose hour or minute is out of
range, and the place, the literal and what is wrong with it are then determined
(`Block.ofPhrase_badTime_iff`). -/

namespace Timetable

/-! ### Blanks in a text -/

/-- Two places in a text are the same, or each of the two characters stands on one side of the other. -/
theorem append_cons_cases {α : Type} {s t u v : List α} {c d : α} (h : s ++ c :: t = u ++ d :: v) :
    s = u ∧ c = d ∧ t = v ∨ d ∈ t ∧ c ∈ u ∨ d ∈ s ∧ c ∈ v := by
  rcases List.append_eq_append_iff.mp h with ⟨u', rfl, h'⟩ | ⟨s', rfl, h'⟩
  · rcases u' with _ | ⟨e, u'⟩
    · obtain ⟨rfl, rfl⟩ := List.cons.inj h'
      exact .inl ⟨(List.append_nil s).symm, rfl, rfl⟩
    · obtain ⟨rfl, rfl⟩ := List.cons.inj h'
      exact .inr (.inl ⟨by simp, by simp⟩)
  · rcases s' with _ | ⟨e, s'⟩
    · obtain ⟨rfl, rfl⟩ := List.cons.inj h'
      exact .inl ⟨List.append_nil u, rfl, rfl⟩
    · obtain ⟨rfl, rfl⟩ := List.cons.inj h'
      exact .inr (.inr ⟨by simp, by simp⟩)

namespace Grammar

open Text (isBlank)

variable {α : Type} {Item : List Char → α → Prop} {xs : List α} {c : Char} {hour minute : Nat}
  {half : DayHalf} {pre s u w y : List Char}

/-- In a literal there is one blank, behind its digits. -/
theorem Literal.exists_split (hw : Literal w hour minute half) : ∃ u c v, w = u ++ c :: v
    ∧ isBlank c = true ∧ (∀ d ∈ u, isBlank d = false) ∧ Half v half := by
  obtain @⟨u, v, w, c, hour, minute, half, hu, hv, hc, hw⟩ := hw
  have hhour : ∀ d ∈ u, isBlank d = false := by
    cases hu with
    | one hc => simpa using hc.isBlank_eq_false
    | two hc hd => simpa using ⟨hc.isBlank_eq_false, hd.isBlank_eq_false⟩
  have hminute : ∀ d ∈ v, isBlank d = false := by
    cases hv with
    | absent => simp
    | present hc hd => simpa using ⟨by decide, hc.isBlank_eq_false, hd.isBlank_eq_false⟩
  refine ⟨u ++ v, c, w, rfl, hc, fun d hd => ?_, hw⟩
  rcases List.mem_append.mp hd with hd | hd
  · exact hhour d hd
  · exact hminute d hd

theorem Half.not_mem_blank (hw : Half w half) (hc : isBlank c = true) : c ∉ w := by
  intro hmem
  have hno : w.any isBlank = false := by cases hw <;> decide
  rw [List.any_eq_true.mpr ⟨c, hmem, hc⟩] at hno
  cases hno

/-! ### Where a time is due -/

theorem Separator.exists_blank (hs : Separator s) : ∃ s' c, s = s' ++ [c] ∧ isBlank c = true := by
  cases hs with
  | comma hc => exact ⟨[','], _, rfl, hc⟩
  | and hc => exact ⟨" and".toList, _, rfl, hc⟩

theorem TimeDue.exists_blank (hpre : TimeDue pre) : ∃ s c, pre = s ++ [c] ∧ isBlank c = true := by
  obtain @⟨b, u, hb, hu⟩ := hpre
  cases hu with
  | first => exact ⟨['a', 't'], b, rfl, hb⟩
  | @next u s ts hts hs =>
      obtain ⟨s', c, rfl, hc⟩ := hs.exists_blank
      exact ⟨'a' :: 't' :: b :: (u ++ s'), c, by simp, hc⟩

/-- The last item of a list, and what stands before it. -/
theorem Items.exists_last (hw : Items Item w xs) : ∃ u v x, w = u ++ v ∧ ItemDue Item u ∧ Item v x := by
  induction hw with
  | one hx => exact ⟨[], _, _, rfl, .first, hx⟩
  | @more u s v x xs hx hs hxs ih =>
      obtain ⟨y, z, x', rfl, hy, hz⟩ := ih
      refine ⟨u ++ s ++ y, z, x', (List.append_assoc _ _ _).symm, ?_, hz⟩
      cases hy with
      | first =>
          rw [List.append_nil]
          exact .next (.one hx) hs
      | next hu hs' =>
          rw [← List.append_assoc]
          exact .next (.more hx hs hu) hs'

theorem Items.getLast?_mem {P : Char → Prop} (hitem : ∀ {w x}, Item w x → ∃ c, w.getLast? = some c ∧ P c)
    (hw : Items Item w xs) : ∃ c, w.getLast? = some c ∧ P c := by
  obtain ⟨u, v, x, rfl, -, hx⟩ := hw.exists_last
  obtain ⟨c, hc, hP⟩ := hitem hx
  exact ⟨c, by rw [List.getLast?_append, hc]; rfl, hP⟩

theorem WeekdayEntry.getLast?_ne {e : Entry} (hw : WeekdayEntry w e) :
    ∃ c, w.getLast? = some c ∧ c ≠ 'M' := by
  cases hw with
  | every w => exact ⟨'s', by simp, by decide⟩
  | one w hu hm hc =>
      refine ⟨'y', ?_, by decide⟩
      cases w <;> simp [List.getLast?_append, List.getLast?_cons] <;> rfl

theorem Days.getLast?_ne {es : List Entry} (hu : Days u es) : ∃ c, u.getLast? = some c ∧ c ≠ 'M' := by
  cases hu with
  | @on c u es hc hes =>
      obtain ⟨d, hd, hne⟩ := hes.getLast?_mem (P := (· ≠ 'M')) WeekdayEntry.getLast?_ne
      exact ⟨d, by simp [List.getLast?_cons, hd], hne⟩
  | parenthesized hes => exact ⟨')', List.getLast?_concat, by decide⟩

/-- A phrase that ends with the letter of a half of the day ends with its last time. -/
theorem Phrase.exists_timeDue {text : List Char} {b : Block} (h : Phrase text b)
    (hlast : text.getLast? = some 'M') : ∃ y z t, text = y ++ z ∧ TimeDue y ∧ Time z t := by
  obtain @⟨c, u, v, w, ⟨ts, days, weeks, _, _⟩, hc, hu, hv, hw⟩ := h
  have hlast_of {p q : List Char} {d : Char} (hd : q.getLast? = some d) :
      (p ++ q).getLast? = some d := by
    rw [List.getLast?_append, hd]
    rfl
  cases hw with
  | @present d x p hb hp =>
      have hs : (d :: x).getLast? = some 's' := by cases hp <;> rfl
      rw [hlast_of hs] at hlast
      cases hlast
  | absent =>
  rw [List.append_nil] at hlast ⊢
  cases hv with
  | present hb hdays =>
      obtain ⟨d, hd, hne⟩ := hdays.getLast?_ne
      rw [hlast_of (by rw [List.getLast?_cons, hd])] at hlast
      exact absurd (Option.some.inj hlast) hne
  | absent =>
  rw [List.append_nil] at hlast ⊢
  cases hu with
  | everyHour => simp at hlast
  | list hts =>
      obtain ⟨y, z, t, rfl, hy, hz⟩ := hts.exists_last
      exact ⟨'a' :: 't' :: c :: y, z, t, rfl, .mk hc hy, hz⟩

/-- A time is due exactly behind a blank with which midnight makes a phrase. -/
theorem timeDue_iff : TimeDue pre ↔
    (∃ s c, pre = s ++ [c] ∧ isBlank c = true) ∧ ∃ b, Phrase (pre ++ "12 AM".toList) b := by
  constructor
  · intro hpre
    exact ⟨hpre.exists_blank, hpre.exists_phrase (time_phrase (.onTheHour 0))⟩
  rintro ⟨⟨s, c, rfl, hc⟩, b, hb⟩
  obtain ⟨y, z, t, heq, hy, hz⟩ := hb.exists_timeDue (by simp)
  obtain ⟨hour, minute, half, hz, -⟩ := Phrase.time_iff.mp hz
  obtain ⟨y, d, rfl, hd⟩ := hy.exists_blank
  obtain ⟨u, e, v, rfl, he, hu, hv⟩ := hz.exists_split
  -- the last blank of the text stands in the time, and the one before it in front of the time
  have htext : s ++ c :: ['1', '2'] ++ ' ' :: ['A', 'M'] = y ++ d :: u ++ e :: v := by
    simpa using heq
  have hdigits : s ++ c :: ['1', '2'] = y ++ d :: u := by
    rcases append_cons_cases htext with ⟨h, -, -⟩ | ⟨hmem, -⟩ | ⟨-, hmem⟩
    · exact h
    · exact absurd hmem (Half.am.not_mem_blank he)
    · exact absurd hmem (hv.not_mem_blank (by decide))
  rcases append_cons_cases hdigits with ⟨rfl, rfl, -⟩ | ⟨hmem, -⟩ | ⟨-, hmem⟩
  · exact hy
  · have hno : ['1', '2'].any isBlank = false := by decide
    rw [List.any_eq_true.mpr ⟨d, hmem, hd⟩] at hno
    cases hno
  · rw [hu c hmem] at hc
    cases hc

/-- Behind a blank within a literal there is a half of the day. -/
theorem Literal.half_of_blank {t : List Char} (hw : Literal (s ++ c :: t) hour minute half)
    (hc : isBlank c = true) : Half t half := by
  obtain ⟨u, d, v, hsplit, -, hu, hv⟩ := hw.exists_split
  rcases append_cons_cases hsplit with ⟨-, -, rfl⟩ | ⟨-, hmem⟩ | ⟨-, hmem⟩
  · exact hv
  · rw [hu c hmem] at hc
    cases hc
  · exact absurd hmem (hv.not_mem_blank hc)

theorem Half.head?_not_digit (hw : Half w half) (v : List Char) :
    (w ++ v).head?.any Char.isDigit = false := by
  cases hw <;> rfl

/-- Neither within a literal that is out of range nor behind it a time is due. -/
theorem Literal.eq_nil_of_timeDue {w' v v' : List Char} {hour' minute' : Nat} {half' : DayHalf}
    (hw : Literal w hour minute half) (hout : ¬ (1 ≤ hour ∧ hour ≤ 12) ∨ 59 < minute) (hpre : TimeDue pre)
    (hw' : Literal w' hour' minute' half') (hy : TimeDue (pre ++ y)) (heq : w ++ v = y ++ (w' ++ v')) :
    y = [] := by
  by_contra hne
  obtain ⟨s, c, rfl⟩ := (List.eq_nil_or_concat y).resolve_left hne
  rw [List.concat_eq_append] at hy heq
  have hc : isBlank c = true := by
    obtain ⟨s', d, hd, hblank⟩ := hy.exists_blank
    rw [← List.append_assoc] at hd
    obtain rfl := List.head_eq_of_cons_eq (List.append_inj_right' hd rfl)
    exact hblank
  rw [List.append_assoc, List.singleton_append] at heq
  rcases exists_of_append_eq_append_cons heq with ⟨t, rfl⟩ | ⟨q, rfl, -⟩
  · -- the place is the blank in the literal, where no digit follows
    have htail : t ++ v = w' ++ v' := by simpa using heq
    have hhead := (hw.half_of_blank hc).head?_not_digit v
    obtain ⟨d, n, x, rfl, hd⟩ := Phrase.exists_digit_of_literal hw'
    have hdigit : d.isDigit = false := by simpa [htail] using hhead
    rw [(Phrase.digit_iff.mp hd).1] at hdigit
    cases hdigit
  · -- the reader of the phrase would have failed for the literal
    obtain ⟨reason, hreason⟩ : ∃ reason, Phrase.timeOfFields hour minute half = .error reason :=
      ⟨_, Phrase.timeOfFields_eq_error_iff.mpr ⟨hout, rfl⟩⟩
    obtain ⟨b, hb⟩ := (timeDue_iff.mp hy).2
    have hthrows := Phrase.throws_phrase_of_literal hpre hw hreason (q ++ [c] ++ "12 AM".toList)
    simp only [List.append_assoc] at hb hthrows
    exact hthrows.not_reads (Phrase.reads_phrase hb)

end Grammar

/-- In the text a literal that is out of range stands where a time is due: behind a blank with which midnight
makes a phrase. -/
structure BadTimeAt (text pre literal rest : String) (hour minute : Nat) : Prop where
  text_eq : text = pre ++ literal ++ rest
  exists_blank : ∃ s c, pre.toList = s ++ [c] ∧ Text.isBlank c = true
  exists_midnight : ∃ b, Block.ofPhrase (pre ++ "12 AM") = .ok b
  exists_literal : ∃ half, Grammar.Literal literal.toList hour minute half
  outOfRange : ¬ (1 ≤ hour ∧ hour ≤ 12) ∨ 59 < minute

namespace BadTimeAt

variable {text pre literal rest : String} {hour minute : Nat}

theorem toList_eq (h : BadTimeAt text pre literal rest hour minute) :
    text.toList = pre.toList ++ (literal.toList ++ rest.toList) := by
  rw [h.text_eq, String.toList_append, String.toList_append, List.append_assoc]

theorem timeDue (h : BadTimeAt text pre literal rest hour minute) : Grammar.TimeDue pre.toList := by
  obtain ⟨b, hb⟩ := h.exists_midnight
  have hphrase := Block.phrase_of_ofPhrase hb
  rw [String.toList_append] at hphrase
  exact Grammar.timeDue_iff.mpr ⟨h.exists_blank, b, hphrase⟩

/-- The error names the literal, and the hour rather than the minute. -/
theorem ofPhrase_eq (h : BadTimeAt text pre literal rest hour minute) : Block.ofPhrase text
    = .error (.badTime literal (if 1 ≤ hour ∧ hour ≤ 12 then "minute must be between 00 and 59"
        else "hour must be between 1 and 12")) := by
  obtain ⟨half, hw⟩ := h.exists_literal
  have hreason : Phrase.timeOfFields hour minute half = .error _ :=
    Phrase.timeOfFields_eq_error_iff.mpr ⟨h.outOfRange, rfl⟩
  have hthrows := Phrase.throws_phrase_of_literal h.timeDue hw hreason rest.toList
  have hne : text ≠ "" := by
    obtain ⟨s, c, hs, -⟩ := h.exists_blank
    rintro rfl
    simpa [hs] using h.toList_eq
  obtain ⟨e, hrun, rfl⟩ := hthrows (Reader.ofText text.toList) h.toList_eq
  rw [Phrase.ofPhrase_eq_error_iff hne, hrun, String.ofList_toList]

variable {pre' literal' rest' : String} {hour' minute' : Nat}

theorem eq_nil_of_append (h : BadTimeAt text pre literal rest hour minute)
    (h' : BadTimeAt text pre' literal' rest' hour' minute') {y : List Char}
    (hy : pre'.toList = pre.toList ++ y) : y = [] := by
  obtain ⟨half, hw⟩ := h.exists_literal
  obtain ⟨half', hw'⟩ := h'.exists_literal
  have htext := h.toList_eq.symm.trans h'.toList_eq
  rw [hy, List.append_assoc] at htext
  exact hw.eq_nil_of_timeDue h.outOfRange h.timeDue hw' (hy ▸ h'.timeDue) (List.append_cancel_left htext)

/-- There is one such place in a text. -/
theorem unique (h : BadTimeAt text pre literal rest hour minute)
    (h' : BadTimeAt text pre' literal' rest' hour' minute') :
    pre' = pre ∧ literal' = literal ∧ rest' = rest := by
  have htext := h.toList_eq.symm.trans h'.toList_eq
  have hpre : pre' = pre := by
    rw [← String.toList_inj]
    rcases List.append_eq_append_iff.mp htext with ⟨y, hy, -⟩ | ⟨y, hy, -⟩
    · rw [hy, h.eq_nil_of_append h' hy, List.append_nil]
    · rw [hy, h'.eq_nil_of_append h hy, List.append_nil]
  have hliteral : literal' = literal :=
    (PhraseError.badTime.inj (Except.error.inj (h'.ofPhrase_eq.symm.trans h.ofPhrase_eq))).1
  subst hpre hliteral
  refine ⟨rfl, rfl, ?_⟩
  rw [← String.toList_inj]
  exact (List.append_cancel_left (List.append_cancel_left htext)).symm

end BadTimeAt

theorem exists_badTimeAt {text literal reason : String}
    (h : Block.ofPhrase text = .error (.badTime literal reason)) :
    ∃ pre rest hour minute, BadTimeAt text pre literal rest hour minute := by
  have hne : text ≠ "" := by
    rintro rfl
    cases h
  cases Phrase.fails_phrase ((Phrase.ofPhrase_eq_error_iff hne).mp h) with
  | other htime =>
      obtain ⟨pre, r, htext, hpre, hrun⟩ := htime
      cases Phrase.fails_time hrun with
      | other hbad =>
      obtain @⟨w, s, hour, minute, half, reason, hrest, hw, hreason⟩ := hbad
      obtain ⟨hblank, b, hb⟩ := Grammar.timeDue_iff.mp hpre
      refine ⟨String.ofList pre, String.ofList s, hour, minute, ?_, ?_, ⟨b, ?_⟩, ⟨half, ?_⟩,
        (Phrase.timeOfFields_eq_error_iff.mp hreason).1⟩
      · have htext' : text.toList = pre ++ (w ++ s) := hrest ▸ htext
        rw [← String.toList_inj, htext']
        simp
      · rwa [String.toList_ofList]
      · apply Block.ofPhrase_of_phrase
        rw [String.toList_append, String.toList_ofList]
        exact hb
      · rwa [String.toList_ofList]

/-- A text fails for a bad time exactly if a literal that is out of range stands where a time is due.  The
error names this literal, with the hour if it is out of range and otherwise with the minute, whatever
follows; and there is one such place. -/
theorem Block.ofPhrase_badTime_iff (text : String) :
    ((∃ literal reason, Block.ofPhrase text = .error (.badTime literal reason))
      ↔ ∃ pre literal rest hour minute, BadTimeAt text pre literal rest hour minute)
    ∧ ∀ pre literal rest hour minute, BadTimeAt text pre literal rest hour minute →
      Block.ofPhrase text = .error (.badTime literal
        (if 1 ≤ hour ∧ hour ≤ 12 then "minute must be between 00 and 59"
          else "hour must be between 1 and 12"))
      ∧ ∀ pre' literal' rest' hour' minute', BadTimeAt text pre' literal' rest' hour' minute' →
        pre' = pre ∧ literal' = literal ∧ rest' = rest := by
  refine ⟨⟨?_, ?_⟩, fun pre literal rest hour minute h => ⟨h.ofPhrase_eq, ?_⟩⟩
  · rintro ⟨literal, reason, h⟩
    obtain ⟨pre, rest, hour, minute, h⟩ := exists_badTimeAt h
    exact ⟨pre, literal, rest, hour, minute, h⟩
  · rintro ⟨pre, literal, rest, hour, minute, h⟩
    exact ⟨literal, _, h.ofPhrase_eq⟩
  · intro pre' literal' rest' hour' minute' h'
    exact h.unique h'

/-- No clock shows 99 hours: the second time of the list is bad, and stands behind its blank. -/
theorem Block.ofPhrase_badTime_ninetyNine : BadTimeAt "at 6 AM, 99 PM" "at 6 AM, " "99 PM" "" 99 0
    ∧ Block.ofPhrase "at 6 AM, 99 PM" = .error (.badTime "99 PM" "hour must be between 1 and 12") := by
  have hnine : Grammar.Digit '9' 9 := Phrase.digit_iff.mpr ⟨rfl, rfl⟩
  have hliteral : Grammar.Literal "99 PM".toList 99 0 .pm :=
    .mk (.two hnine hnine) .absent (by decide) .pm
  have hbad : BadTimeAt "at 6 AM, 99 PM" "at 6 AM, " "99 PM" "" 99 0 :=
    { text_eq := by decide
      exists_blank := ⟨"at 6 AM,".toList, ' ', by decide, by decide⟩
      exists_midnight := ⟨_, rfl⟩
      exists_literal := ⟨.pm, hliteral⟩
      outOfRange := by decide }
  exact ⟨hbad, ((Block.ofPhrase_badTime_iff _).2 _ _ _ _ _ hbad).1⟩

end Timetable
