import Timetable.Proofs.Phrase.DueTimes

/-! # What could follow

When a reader asks for more, there is more that it would take up: the text is the beginning of what the
grammar has in this place.  `Read.FailsOnly` says so of a reader; of two readers, one after the other, it
holds if each of them has a continuation (`Read.FailsOnly.bind`).  So it holds of a whole phrase, except
that a time can also fail by itself (`Phrase.fails_phrase`). -/

namespace Timetable

namespace Read

open Text (isBlank)

variable {α β : Type} {p : Read α} {f : α → Read β} {G G' : List Char → Prop}
  {X X' : List Char → PhraseError → Prop}

/-- How a text fails: there is a fault in it, or it ends, but is the beginning of a longer text of `G`, or it
fails as `X` has it. -/
inductive Failure (G : List Char → Prop) (X : List Char → PhraseError → Prop) (s : List Char) :
    PhraseError → Prop
  | fault (fault : SyntaxFault) : Failure G X s (.unexpectedText fault)
  | unfinished {t : List Char} (ht : t ≠ []) (hG : G (s ++ t)) : Failure G X s .unexpectedEnd
  | other {e : PhraseError} (he : X s e) : Failure G X s e

/-- Wherever the reader fails, what is left of the text fails in one of these ways. -/
def FailsOnly (p : Read α) (G : List Char → Prop) (X : List Char → PhraseError → Prop) : Prop :=
  ∀ ⦃r : Reader⦄ ⦃e : PhraseError⦄, p.run r = .error e → Failure G X r.rest e

namespace FailsOnly

theorem pure (a : α) : FailsOnly (Pure.pure a : Read α) G X :=
  fun _ _ h => nomatch h

theorem mono (hp : FailsOnly p G X) (hG : ∀ {w}, G w → G' w) (hX : ∀ {s e}, X s e → X' s e) :
    FailsOnly p G' X' := by
  intro r e h
  cases hp h with
  | fault fault => exact .fault fault
  | unfinished ht hw => exact .unfinished ht (hG hw)
  | other he => exact .other (hX he)

/-- What the first reader would take up has a continuation, and what it takes up leaves the second one a
text of its own. -/
theorem bind {S : List Char → α → Prop} (hp : FailsOnly p G X) (hS : Sound p S)
    (hend : ∀ {w}, G w → ∃ v, G' (w ++ v))
    (hf : ∀ {u a}, S u a → FailsOnly (f a) (fun w => G' (u ++ w)) fun s => X (u ++ s)) :
    FailsOnly (p >>= f) G' X := by
  intro r e h
  rcases run_bind_eq_error_iff.mp h with hrun | ⟨a, r', hrun, hrun'⟩
  · cases hp hrun with
    | fault fault => exact .fault fault
    | unfinished ht hw =>
        obtain ⟨v, hv⟩ := hend hw
        rw [List.append_assoc] at hv
        exact .unfinished (List.append_ne_nil_of_left_ne_nil ht v) hv
    | other he => exact .other he
  · obtain ⟨u, hu, hrest⟩ := hS hrun
    rw [hrest]
    cases hf hu hrun' with
    | fault fault => exact .fault fault
    | unfinished ht hw =>
        rw [← List.append_assoc] at hw
        exact .unfinished ht hw
    | other he => exact .other he

/-- What is made of the value is none of the text. -/
theorem bind_pure (hp : FailsOnly p G X) (g : α → β) : FailsOnly (p >>= fun a => Pure.pure (g a)) G X := by
  intro r e h
  rcases run_bind_eq_error_iff.mp h with hrun | ⟨a, r', -, hrun'⟩
  · exact hp hrun
  · cases hrun'

theorem eatWhere {inClass : Char → Bool} {c : Char} (hc : inClass c = true) (expected : String) :
    FailsOnly (eatWhere inClass expected) (fun w => ∃ c, w = [c] ∧ inClass c = true) X := by
  intro r e h
  rw [run_eatWhere] at h
  cases hhead : r.rest.head? with
  | none =>
      rw [hhead] at h
      obtain rfl := Except.error.inj h
      rw [List.head?_eq_none_iff.mp hhead]
      exact .unfinished (List.cons_ne_nil c []) ⟨c, rfl, hc⟩
  | some d =>
      rw [hhead] at h
      by_cases hd : inClass d = true
      · simp only [hd, if_true, reduceCtorEq] at h
      · simp only [hd] at h
        obtain rfl := Except.error.inj h
        exact .fault _

theorem eatBlank : FailsOnly eatBlank (fun w => ∃ c, w = [c] ∧ isBlank c = true) X :=
  (eatWhere (c := ' ') (by decide) _).bind_pure fun _ => ()

theorem eatChar (c : Char) (expected : String) : FailsOnly (eatChar c expected) (· = [c]) X := by
  intro r e h
  rw [run_eatChar] at h
  split at h
  · cases h
  · rw [Reader.unexpected, Reader.stopsShort, List.any_nil, Bool.or_false] at h
    split at h
    · rename_i hempty
      obtain rfl := Except.error.inj h
      rw [List.isEmpty_iff.mp hempty]
      exact .unfinished (List.cons_ne_nil c []) rfl
    · obtain rfl := Except.error.inj h
      exact .fault _

theorem eatEntry {table : List (List Char × α)} (expected : String) (hwords : ∀ row ∈ table, row.1 ≠ [])
    (hne : table ≠ []) : FailsOnly (eatEntry table expected) (fun w => ∃ a, (w, a) ∈ table) X := by
  intro r e h
  rw [run_eatEntry] at h
  split at h
  · cases h
  · rw [Reader.unexpected] at h
    split at h
    · rename_i hshort
      obtain rfl := Except.error.inj h
      rcases Bool.or_eq_true_iff.mp hshort with hempty | hany
      · rw [List.isEmpty_iff.mp hempty]
        obtain ⟨⟨w, a⟩, hmem⟩ := List.exists_mem_of_ne_nil table hne
        exact .unfinished (hwords _ hmem) ⟨a, hmem⟩
      · obtain ⟨word, hword, hbegins⟩ := List.any_eq_true.mp hany
        obtain ⟨⟨w, a⟩, hmem, rfl⟩ := List.mem_map.mp hword
        obtain ⟨hlength, hprefix⟩ := Bool.and_eq_true_iff.mp hbegins
        obtain ⟨t, ht⟩ := List.isPrefixOf_iff_prefix.mp hprefix
        refine .unfinished (t := t) ?_ ⟨a, ht ▸ hmem⟩
        rintro rfl
        rw [← ht, List.append_nil, decide_eq_true_iff] at hlength
        exact lt_irrefl _ hlength
    · obtain rfl := Except.error.inj h
      exact .fault _

theorem eatWord {word : List Char} (hne : word ≠ []) : FailsOnly (eatWord word) (· = word) X :=
  (eatEntry _ (by simpa using hne) (List.cons_ne_nil _ _)).mono (by simp) id

end FailsOnly

end Read

namespace Grammar

open Text (isBlank)

/-- What may follow the times of a phrase. -/
inductive Clauses : List Char → Prop
  | mk {u v : List Char} {days : Option (List Entry)} {weeks : Option Parity}
      (hdays : Optional Days u days) (hweeks : Optional Weeks v weeks) : Clauses (u ++ v)

namespace Clauses

variable {c : Char} {u v w : List Char} {es : List Entry} {p : Parity} {ts : List TimeOfDay}

theorem days (hc : isBlank c = true) (hv : Days v es) : Clauses (c :: v) := by
  simpa using Clauses.mk (.present hc hv) .absent

theorem weeks (hc : isBlank c = true) (hv : Weeks v p) : Clauses (c :: v) :=
  .mk .absent (.present hc hv)

theorem exists_phrase (hc : isBlank c = true) (hu : Times u ts) (hw : Clauses w) :
    ∃ b, Phrase ('a' :: 't' :: c :: (u ++ w)) b := by
  obtain @⟨v, w, days, weeks, hdays, hweeks⟩ := hw
  have hne : days ≠ some [] := by
    rintro rfl
    cases hdays with
    | present hc hv => cases hv with
      | on hc hes => exact Phrase.ne_nil_of_items hes rfl
      | parenthesized hes => exact Phrase.ne_nil_of_items hes rfl
  refine ⟨⟨ts, days, weeks, Phrase.ne_nil_of_times hu, hne⟩, ?_⟩
  rw [← List.append_assoc]
  exact .mk hc hu hdays hweeks

end Clauses

theorem Times.exists_phrase {c : Char} {u : List Char} {ts : List TimeOfDay} (hu : Times u ts)
    (hc : isBlank c = true) : ∃ b, Phrase ('a' :: 't' :: c :: u) b := by
  simpa using Clauses.exists_phrase hc hu (.mk .absent .absent)

/-- With a time where one is due, the text is a phrase. -/
theorem TimeDue.exists_phrase {pre w : List Char} {t : TimeOfDay} (hpre : TimeDue pre) (hw : Time w t) :
    ∃ b, Phrase (pre ++ w) b := by
  obtain ⟨hc, hu⟩ := hpre
  obtain ⟨ts, hts⟩ := hu.exists_items hw
  exact (Times.list hts).exists_phrase hc

end Grammar

namespace Phrase

open Text Read Grammar

variable {X X' : List Char → PhraseError → Prop}

/-! ### Literals -/

theorem fails_eatDigit : FailsOnly eatDigit (fun w => ∃ c n, w = [c] ∧ Digit c n) X := by
  refine (FailsOnly.eatWhere (c := '0') (by decide) _).mono ?_ id
  rintro w ⟨c, rfl, hc⟩
  exact ⟨c, _, rfl, digit_iff.mpr ⟨hc, rfl⟩⟩

theorem fails_hourDigits : FailsOnly hourDigits (fun w => ∃ n, HourDigits w n) X := by
  refine fails_eatDigit.bind sound_eatDigit ?_ ?_
  · rintro w ⟨c, n, rfl, hc⟩
    exact ⟨[], n, .one hc⟩
  · rintro u a ⟨rfl, ha⟩ r e h
    rw [digitFollows, bind_assoc, run_get_bind, pure_bind] at h
    split at h
    · refine ((fails_eatDigit.mono ?_ id).bind_pure _) h
      rintro w ⟨d, n, rfl, hd⟩
      exact ⟨_, .two ha hd⟩
    · cases h

theorem fails_minuteDigits : FailsOnly minuteDigits (fun w => ∃ n, MinuteDigits w n) X := by
  intro r e h
  rw [minuteDigits, run_get_bind] at h
  split at h
  · refine ((FailsOnly.eatChar _ _).bind sound_eatChar ?_ ?_) h
    · rintro w rfl
      exact ⟨['0', '0'], _, .present digit_zero digit_zero⟩
    rintro u - rfl
    refine fails_eatDigit.bind sound_eatDigit ?_ ?_
    · rintro w ⟨c, n, rfl, hc⟩
      exact ⟨['0'], _, .present hc digit_zero⟩
    rintro u a ⟨rfl, ha⟩
    refine (fails_eatDigit.mono ?_ id).bind_pure _
    rintro w ⟨d, n, rfl, hd⟩
    exact ⟨_, .present ha hd⟩
  · cases h

theorem fails_dayHalf : FailsOnly dayHalf (fun w => ∃ half, Half w half) X :=
  (FailsOnly.eatEntry _ (by decide) (by decide)).mono (fun ⟨half, hmem⟩ => ⟨half, mem_dayHalf_iff.mp hmem⟩) id

theorem fails_fields :
    FailsOnly fields (fun w => ∃ hour minute half, Literal w hour minute half) X := by
  refine fails_hourDigits.bind sound_hourDigits ?_ ?_
  · rintro w ⟨hour, hw⟩
    refine ⟨" AM".toList, hour, 0, .am, ?_⟩
    simpa using Literal.mk hw .absent (c := ' ') (by decide) .am
  intro u hour hu
  refine fails_minuteDigits.bind sound_minuteDigits ?_ ?_
  · rintro w ⟨minute, hw⟩
    refine ⟨" AM".toList, hour, minute, .am, ?_⟩
    simpa using Literal.mk hu hw (c := ' ') (by decide) .am
  intro v minute hv
  refine FailsOnly.eatBlank.bind sound_eatBlank ?_ ?_
  · rintro w ⟨c, rfl, hc⟩
    refine ⟨"AM".toList, hour, minute, .am, ?_⟩
    simpa using Literal.mk hu hv hc .am
  rintro _ - ⟨c, rfl, hc⟩
  refine (fails_dayHalf.mono ?_ id).bind_pure _
  rintro w ⟨half, hw⟩
  refine ⟨hour, minute, half, ?_⟩
  simpa using Literal.mk hu hv hc hw

/-- At the beginning of the text there is a literal that is out of range, and the error is about it. -/
inductive BadLiteral (text : List Char) : PhraseError → Prop
  | mk {w s : List Char} {hour minute : Nat} {half : DayHalf} {reason : String} (htext : text = w ++ s)
      (hw : Literal w hour minute half) (hreason : timeOfFields hour minute half = .error reason) :
      BadLiteral text (.badTime (String.ofList w) reason)

theorem fails_time :
    FailsOnly time (fun w => ∃ hour minute half, Literal w hour minute half) BadLiteral := by
  rintro ⟨passed, rest⟩ e h
  have hrun := h
  rw [time_eq, run_get_bind] at hrun
  rcases run_bind_eq_error_iff.mp hrun with hrun | ⟨⟨hour, minute, half⟩, r', hrun, -⟩
  · exact fails_fields hrun
  · obtain ⟨w, hw, rfl⟩ := sound_fields hrun
    have htime := h.symm.trans (run_time_of_literal hw passed r'.rest)
    cases hjudge : timeOfFields hour minute half with
    | ok t =>
        rw [hjudge] at htime
        cases htime
    | error reason =>
        rw [hjudge] at htime
        obtain rfl := Except.error.inj htime
        exact .other (.mk rfl hw hjudge)

/-! ### Lists -/

section Lists

variable {α : Type} {item : Read α} {Item : List Char → α → Prop}

theorem sound_separator_cases : Sound separator fun w found =>
    found = true ∧ Separator w ∨ found = false ∧ w = [] := by
  intro r found r' h
  rcases sound_separator h with ⟨rfl, w, hw, hrest⟩ | ⟨rfl, rfl⟩
  · exact ⟨w, .inl ⟨rfl, hw⟩, hrest⟩
  · exact ⟨[], .inr ⟨rfl, rfl⟩, rfl⟩

theorem fails_separator : FailsOnly separator Separator X := by
  intro r e h
  rw [separator, run_get_bind] at h
  split at h
  · refine ((FailsOnly.eatChar _ _).bind sound_eatChar ?_ ?_) h
    · rintro w rfl
      exact ⟨[' '], .comma (by decide)⟩
    rintro u - rfl
    refine (FailsOnly.eatBlank.mono ?_ id).bind_pure _
    rintro w ⟨c, rfl, hc⟩
    exact .comma hc
  split at h
  · rename_i hcontinues
    obtain ⟨s, hs⟩ := List.isPrefixOf_iff_prefix.mp hcontinues
    -- the word is there as it was seen, so only the blank behind it can be missing
    obtain ⟨r₁, hrun₁, hr₁⟩ := reads_eatBlank (c := ' ') (by decide) ("and".toList ++ s) r hs.symm
    obtain ⟨r₂, hrun₂, hr₂⟩ := reads_eatWord "and".toList s r₁ hr₁
    rw [run_bind_of_ok hrun₁, run_bind_of_ok hrun₂, ← hs] at *
    have hblank : FailsOnly (do eatBlank; return true) (fun w => Separator (" and".toList ++ w))
        fun s => X (" and".toList ++ s) := by
      refine (FailsOnly.eatBlank.mono ?_ id).bind_pure _
      rintro w ⟨c, rfl, hc⟩
      exact .and hc
    cases hblank h with
    | fault fault => exact .fault fault
    | unfinished ht hw => exact .unfinished ht (hr₂ ▸ hw)
    | other he => exact .other (hr₂ ▸ he)
  · cases h

/-- Behind a list that is complete, the reader of the further items fails where a longer one could stand, or
where the item fails that is due. -/
theorem fails_furtherItems (hitem : Sound item Item) (hfails : FailsOnly item (fun w => ∃ x, Item w x) X)
    (hexists : ∃ v x, Item v x) (hX : ∀ {u s e}, ItemDue Item u → X s e → X' (u ++ s) e) :
    ∀ (limit : Nat) {u : List Char} {xs : List α}, Items Item u xs →
      FailsOnly (furtherItems item limit) (fun w => ∃ ys, Items Item (u ++ w) ys) fun s => X' (u ++ s)
  | 0, u, xs, _ => .pure []
  | limit + 1, u, xs, hu => by
      refine fails_separator.bind sound_separator_cases ?_ ?_
      · intro w hw
        obtain ⟨v, x, hx⟩ := hexists
        exact ⟨v, xs ++ [x], by simpa using hu.append hw hx⟩
      rintro s found (⟨rfl, hs⟩ | ⟨rfl, rfl⟩)
      · rw [if_pos rfl]
        refine (hfails.mono id fun he => ?_).bind hitem ?_ ?_
        · rw [← List.append_assoc]
          exact hX (.next hu hs) he
        · rintro w ⟨x, hx⟩
          exact ⟨[], xs ++ [x], by simpa using hu.append hs hx⟩
        intro v x hv
        have hrest := fails_furtherItems hitem hfails hexists hX limit (hu.append hs hv)
        simp only [List.append_assoc] at hrest
        exact hrest.bind_pure _
      · rw [if_neg Bool.false_ne_true]
        exact .pure []

/-- A list fails where a longer one could stand, or where the item fails that is due. -/
theorem fails_items (hitem : Sound item Item) (hfails : FailsOnly item (fun w => ∃ x, Item w x) X)
    (hexists : ∃ v x, Item v x) (hX : ∀ {u s e}, ItemDue Item u → X s e → X' (u ++ s) e) :
    FailsOnly (items item) (fun w => ∃ xs, Items Item w xs) X' := by
  have hfirst : FailsOnly item (fun w => ∃ x, Item w x) X' := hfails.mono id fun he => hX .first he
  refine hfirst.bind hitem ?_ ?_
  · rintro w ⟨x, hx⟩
    exact ⟨[], [x], by simpa using Items.one hx⟩
  intro u x hu r e h
  rw [run_get_bind] at h
  have hrest := fails_furtherItems hitem hfails hexists hX r.rest.length (.one hu)
  exact (hrest.bind_pure _) h

end Lists

/-! ### Times -/

/-- The time for which every reader of times has a continuation. -/
theorem exists_time : ∃ w t, Time w t :=
  ⟨_, _, time_phrase (.onTheHour 0)⟩

/-- In a list of times, one that is due fails. -/
theorem fails_times : FailsOnly times (fun w => ∃ ts, Times w ts) fun s e =>
    ∃ u r, s = u ++ r.rest ∧ ItemDue Time u ∧ time.run r = .error e := by
  intro r e h
  by_cases hnil : r.rest = []
  · obtain ⟨e', hrun, rfl⟩ := stops_times_nil r hnil
    obtain rfl := Except.error.inj (h.symm.trans hrun)
    rw [hnil]
    exact .unfinished (by decide) ⟨_, .everyHour⟩
  rw [times, run_get_bind, if_neg (by rwa [Reader.atEnd, List.isEmpty_iff]), digitFollows, bind_assoc,
    run_get_bind, pure_bind] at h
  split at h
  · have hitem : FailsOnly time (fun w => ∃ t, Time w t)
        fun s e => ∃ r, s = r.rest ∧ time.run r = .error e := fun r _ h => .other ⟨r, rfl, h⟩
    have hitems : FailsOnly (items time) (fun w => ∃ ts, Items Time w ts) fun s e =>
        ∃ u r, s = u ++ r.rest ∧ ItemDue Time u ∧ time.run r = .error e := by
      refine fails_items sound_time hitem exists_time ?_
      rintro u s e hu ⟨r, rfl, hrun⟩
      exact ⟨u, r, rfl, hu, hrun⟩
    refine (hitems.mono ?_ id) h
    rintro w ⟨ts, hts⟩
    exact ⟨ts, .list hts⟩
  · refine ((FailsOnly.eatEntry _ (by decide) (List.cons_ne_nil _ _)).mono ?_ id) h
    rintro w ⟨ts, hmem⟩
    obtain ⟨rfl, -⟩ := Prod.mk.inj (List.mem_singleton.mp hmem)
    exact ⟨_, .everyHour⟩

/-! ### Weekdays -/

theorem fails_weekday : FailsOnly weekday (fun u => ∃ w : Weekday, u = w.name.toList) X :=
  (FailsOnly.eatEntry _ (by decide) (by decide)).mono
    (fun ⟨w, hmem⟩ => ⟨w, mem_weekdayWords_iff.mp hmem⟩) id

theorem fails_modifier : FailsOnly modifier (fun u => ∃ m, ModifierWord u m) X :=
  (FailsOnly.eatEntry _ (by decide) (by decide)).mono
    (fun ⟨m, hmem⟩ => ⟨m, mem_modifierWords_iff.mp hmem⟩) id

theorem fails_singular {u : List Char} (hu : Article u) :
    FailsOnly singular (fun w => ∃ e, WeekdayEntry (u ++ w) e) X := by
  refine fails_modifier.bind sound_modifier ?_ ?_
  · rintro v ⟨m, hv⟩
    refine ⟨' ' :: Weekday.monday.name.toList, ⟨.monday, some m⟩, ?_⟩
    simpa using WeekdayEntry.one .monday hu hv (c := ' ') (by decide)
  intro v m hv
  refine FailsOnly.eatBlank.bind sound_eatBlank ?_ ?_
  · rintro w ⟨c, rfl, hc⟩
    refine ⟨Weekday.monday.name.toList, ⟨.monday, some m⟩, ?_⟩
    simpa using WeekdayEntry.one .monday hu hv hc
  rintro _ - ⟨c, rfl, hc⟩
  refine fails_weekday.bind sound_weekday ?_ ?_
  · rintro _ ⟨w, rfl⟩
    refine ⟨[], ⟨w, some m⟩, ?_⟩
    simpa using WeekdayEntry.one w hu hv hc
  rintro _ w rfl r e h
  rw [run_get_bind] at h
  split at h
  · obtain rfl := Except.error.inj h
    exact .fault _
  · cases h

theorem fails_entry : FailsOnly entry (fun w => ∃ e, WeekdayEntry w e) X := by
  intro r e h
  rw [entry_eq, run_get_bind] at h
  split at h
  · rename_i hpeek
    obtain rfl := Except.error.inj h
    rw [List.head?_eq_none_iff.mp hpeek]
    exact .unfinished (t := "Mondays".toList) (by decide) ⟨_, .every .monday⟩
  split at h
  · refine (fails_weekday.bind sound_weekday ?_ ?_) h
    · rintro _ ⟨w, rfl⟩
      exact ⟨['s'], _, .every w⟩
    rintro _ w rfl
    refine ((FailsOnly.eatChar _ _).mono ?_ id).bind_pure _
    rintro _ rfl
    exact ⟨_, .every w⟩
  split at h
  · refine ((FailsOnly.eatWord (by decide)).bind sound_eatWord ?_ ?_) h
    · rintro _ rfl
      exact ⟨" last Monday".toList, _, .one .monday (.present (by decide)) .last (by decide)⟩
    rintro _ - rfl
    refine FailsOnly.eatBlank.bind sound_eatBlank ?_ ?_
    · rintro _ ⟨c, rfl, hc⟩
      exact ⟨"last Monday".toList, _, .one .monday (.present hc) .last (by decide)⟩
    rintro _ - ⟨c, rfl, hc⟩
    exact fails_singular (.present hc)
  · exact fails_singular .absent h

theorem exists_weekdayEntry : ∃ w e, WeekdayEntry w e :=
  ⟨_, _, .every .monday⟩

theorem fails_items_entry : FailsOnly (items entry) (fun w => ∃ es, Items WeekdayEntry w es) X :=
  fails_items (X := fun _ _ => False) sound_entry fails_entry exists_weekdayEntry fun _ => False.elim

/-! ### Clauses -/

theorem fails_entries (parenthesized : Bool) : FailsOnly (entries parenthesized) (fun w => ∃ u es,
    w = u ++ (if parenthesized then [')'] else []) ∧ Items WeekdayEntry u es) X := by
  refine fails_items_entry.bind (sound_items sound_entry) ?_ ?_
  · rintro w ⟨es, hes⟩
    exact ⟨_, w, es, rfl, hes⟩
  intro u es hu
  cases parenthesized with
  | true =>
      refine ((FailsOnly.eatChar _ _).mono ?_ id).bind_pure _
      rintro _ rfl
      exact ⟨u, es.1, rfl, hu⟩
  | false => exact .pure es

theorem fails_weeksAtLast : FailsOnly weeksAtLast (fun w => ∃ p, Optional Weeks w p) X := by
  intro r e h
  rw [weeksAtLast, run_get_bind] at h
  split at h
  · cases h
  refine (FailsOnly.eatBlank.bind sound_eatBlank ?_ ?_) h
  · rintro w ⟨c, rfl, hc⟩
    exact ⟨_, some .even, .present hc .even⟩
  rintro _ - ⟨c, rfl, hc⟩
  refine ((FailsOnly.eatEntry _ (by decide) (by decide)).mono ?_ id).bind_pure _
  rintro w ⟨p, hmem⟩
  exact ⟨some p, .present hc (mem_weekClauses_iff.mp hmem)⟩

theorem fails_restrictions : FailsOnly restrictions Clauses X := by
  intro r e h
  rw [restrictions, run_get_bind] at h
  split at h
  · cases h
  refine (FailsOnly.eatBlank.bind sound_eatBlank ?_ ?_) h
  · rintro w ⟨c, rfl, hc⟩
    exact ⟨"in even weeks".toList, .weeks hc .even⟩
  rintro _ - ⟨c, rfl, hc⟩
  have hmondays : Items WeekdayEntry "Mondays".toList [⟨.monday, none⟩] := .one (.every .monday)
  refine ((FailsOnly.eatEntry _ (by decide) (by decide)).bind sound_eatEntry ?_ ?_)
  · rintro w ⟨i, hmem⟩
    cases mem_introductions_iff.mp hmem with
    | parenthesis => exact ⟨"Mondays".toList ++ [')'], .days hc (.parenthesized hmondays)⟩
    | on => exact ⟨' ' :: "Mondays".toList, .days hc (.on (by decide) hmondays)⟩
    | weeks hw => exact ⟨[], by simpa using Clauses.weeks hc hw⟩
  intro w i hmem
  cases mem_introductions_iff.mp hmem with
  | weeks hw => exact .pure _
  | on =>
      refine FailsOnly.eatBlank.bind sound_eatBlank ?_ ?_
      · rintro w ⟨d, rfl, hd⟩
        exact ⟨"Mondays".toList, .days hc (.on hd hmondays)⟩
      rintro _ - ⟨d, rfl, hd⟩
      refine (fails_entries false).bind sound_entries ?_ ?_
      · rintro _ ⟨w, es, rfl, hw⟩
        exact ⟨[], by simpa using Clauses.days hc (.on hd hw)⟩
      rintro _ es ⟨v, rfl, hv⟩
      refine (fails_weeksAtLast.mono ?_ id).bind_pure _
      rintro w ⟨p, hw⟩
      simpa using Clauses.mk (.present hc (.on hd hv)) hw
  | parenthesis =>
      refine (fails_entries true).bind sound_entries ?_ ?_
      · rintro _ ⟨w, es, rfl, hw⟩
        exact ⟨[], by simpa using Clauses.days hc (.parenthesized hw)⟩
      rintro _ es ⟨v, rfl, hv⟩
      refine (fails_weeksAtLast.mono ?_ id).bind_pure _
      rintro w ⟨p, hw⟩
      simpa using Clauses.mk (.present hc (.parenthesized hv)) hw

/-! ### Phrases -/

/-- In the text a time is due, and it fails. -/
def TimeFails (text : List Char) (e : PhraseError) : Prop :=
  ∃ pre r, text = pre ++ r.rest ∧ TimeDue pre ∧ time.run r = .error e

/-- A phrase fails where a longer text could be one, or where a time fails that is due. -/
theorem fails_phrase : FailsOnly phrase (fun text => ∃ b, Grammar.Phrase text b) TimeFails := by
  refine (FailsOnly.eatWord (by decide)).bind sound_eatWord ?_ ?_
  · rintro _ rfl
    exact ⟨' ' :: everyHour, Times.everyHour.exists_phrase (by decide)⟩
  rintro _ - rfl
  refine FailsOnly.eatBlank.bind sound_eatBlank ?_ ?_
  · rintro _ ⟨c, rfl, hc⟩
    exact ⟨everyHour, Times.everyHour.exists_phrase hc⟩
  rintro _ - ⟨c, rfl, hc⟩
  refine (fails_times.mono id ?_).bind sound_times ?_ ?_
  · rintro s e ⟨u, r, rfl, hu, hrun⟩
    exact ⟨'a' :: 't' :: c :: u, r, rfl, .mk hc hu, hrun⟩
  · rintro w ⟨ts, hw⟩
    exact ⟨[], by simpa using hw.exists_phrase hc⟩
  rintro u ts hu
  refine fails_restrictions.bind sound_restrictions ?_ ?_
  · intro w hw
    exact ⟨[], by simpa using hw.exists_phrase hc hu⟩
  rintro _ ⟨days, weeks⟩ - r e h
  rw [run_get_bind] at h
  split at h
  · cases h
  · obtain rfl := Except.error.inj h
    exact .fault _

theorem ofPhrase_eq_error_iff {text : String} (hne : text ≠ "") {e : PhraseError} :
    Block.ofPhrase text = .error e ↔ phrase.run (Reader.ofText text.toList) = .error e := by
  rw [Block.ofPhrase, Phrase.read, if_neg (by simpa using hne)]
  cases phrase.run (Reader.ofText text.toList) <;> simp [Except.map]

end Phrase

end Timetable
