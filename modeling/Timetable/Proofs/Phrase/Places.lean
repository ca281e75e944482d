import Timetable.Proofs.Phrase.Continuations

/-! # Where a phrase goes wrong

Every reader of a phrase looks ahead no further than its words are long, so that a fault stands where the
text goes wrong: what comes before it is in order, and what comes behind it cannot mend it
(`Block.ofPhrase_fault_at`). -/

namespace Timetable

namespace Phrase

open Text Read Grammar

/-! ### Times -/

theorem located_judge (start : Reader) (parts : Nat × Nat × DayHalf) : Located (judge start parts) := by
  unfold judge
  cases timeOfFields parts.1 parts.2.1 parts.2.2 with
  | ok t => exact .pure t
  | error reason => exact .of_fails fun _ => ⟨_, rfl, nofun⟩

/-- Where a time was begun is seen only in the error of its literal, and that is no fault. -/
theorem located_time : Located time := by
  refine .of_alike fun _ => ⟨_, located_fields.bind (located_judge (Reader.ofText [])), fun r _ => ?_⟩
  have hrun : time.run r = (fields >>= judge r).run r := by
    rw [time_eq, run_get_bind]
  cases hfields : fields.run r with
  | error e =>
      refine .of_run_eq ?_
      rw [hrun, run_bind_of_error hfields, run_bind_of_error hfields]
  | ok result =>
      obtain ⟨parts, r'⟩ := result
      rw [run_bind_of_ok hfields] at hrun
      unfold judge at hrun
      constructor
      all_goals
        rw [hrun, run_bind_of_ok hfields]
        unfold judge
        cases timeOfFields parts.1 parts.2.1 parts.2.2 with
        | ok t => rfl
        | error reason => exact iff_of_false nofun nofun

theorem consumes_time : Consumes 1 time := by
  refine .of_sound sound_time fun hw => ?_
  obtain ⟨c, n, u, rfl, -⟩ := exists_digit_of_time hw
  exact Nat.le_add_left 1 u.length

/-! ### Lists -/

/-- The separator that begins with a space. -/
def conjunction : Read Bool := do
  let r ← get
  if r.continuesWith " and".toList then
    eatBlank
    eatWord "and".toList
    eatBlank
    return true
  else
    return false

theorem separator_eq : separator = (do
    let r ← get
    if r.peek? = some ',' then
      eatChar ',' "','"
      eatBlank
      return true
    else conjunction) := by
  refine StateT.ext fun r => ?_
  rw [separator, run_get_bind, run_get_bind]
  split <;> rfl

theorem located_conjunction : Located conjunction := by
  have hblank : Located (do eatBlank; return true) := Located.eatBlank.bind fun _ => .pure true
  have hand : Located (eatWord "and".toList) := .eatWord (by decide) (by decide)
  refine .ite_word (g := do eatBlank; return true) (by decide)
    (Located.eatBlank.bind fun _ => hand.bind fun _ => hblank) hblank (.pure false) ?_ ?_
  · exact Consumes.eatBlank.bind fun _ => (Consumes.eatWord _).bind fun _ => .of_located hblank
  · intro passed t
    have hspace := Located.eatBlank.run_of_reads (w := [' '])
      (reads_eatBlank (by decide) ("and".toList ++ t)) passed
    have hletters := hand.run_of_reads (reads_eatWord "and".toList t) ([' '].reverse ++ passed)
    exact (run_bind_of_ok hspace).trans (run_bind_of_ok hletters)

theorem located_separator : Located separator := by
  have hblank : Located (do eatBlank; return true) := Located.eatBlank.bind fun _ => .pure true
  rw [separator_eq]
  exact .ite_head (decidedBy_char ',') ((Located.eatChar _ _).bind fun _ => hblank) located_conjunction
    ((Consumes.eatChar _ _).bind fun _ => .of_located hblank)

section Lists

variable {α : Type} {item : Read α}

theorem located_furtherItems (hitem : Located item) : ∀ limit, Located (furtherItems item limit)
  | 0 => .pure []
  | limit + 1 => located_separator.bind fun
    | true => hitem.bind fun _ => (located_furtherItems hitem limit).bind fun _ => .pure _
    | false => .pure []

theorem run_furtherItems_nil {r : Reader} (hr : r.rest = []) :
    ∀ limit, (furtherItems item limit).run r = .ok ([], r)
  | 0 => rfl
  | limit + 1 => by
      have hseparator : separator.run r = .ok (false, r) := by
        rw [separator, run_get_bind, Reader.peek?, Reader.continuesWith, hr]
        rfl
      rw [furtherItems, run_bind_of_ok hseparator]
      rfl

/-- A limit that is not below the number of characters left is none. -/
theorem run_furtherItems_congr (hitem : Located item) : ∀ {m n : Nat} {r : Reader},
    r.rest.length ≤ m → r.rest.length ≤ n → (furtherItems item m).run r = (furtherItems item n).run r
  | 0, n, r, hm, _ => by
      have hr : r.rest = [] := List.length_eq_zero_iff.mp (Nat.le_zero.mp hm)
      rw [run_furtherItems_nil hr, run_furtherItems_nil hr]
  | m, 0, r, _, hn => by
      have hr : r.rest = [] := List.length_eq_zero_iff.mp (Nat.le_zero.mp hn)
      rw [run_furtherItems_nil hr, run_furtherItems_nil hr]
  | m + 1, n + 1, r, hm, hn => by
      refine run_bind_congr fun found r₁ hfound => ?_
      rcases sound_separator hfound with ⟨rfl, w, hw, hrest⟩ | ⟨rfl, -⟩
      · refine run_bind_congr fun x r₂ hx => ?_
        obtain ⟨u, hu, -⟩ := hitem.takes hx
        have hlength : r₂.rest.length < r.rest.length := by
          have hpositive : 0 < w.length := by cases hw <;> exact Nat.succ_pos _
          rw [hrest, hu, List.length_append, List.length_append]
          omega
        have hsame : (furtherItems item m).run r₂ = (furtherItems item n).run r₂ :=
          run_furtherItems_congr hitem (by omega) (by omega)
        rw [StateT.run_bind, StateT.run_bind, hsame]
      · rfl

theorem located_afterItem (hitem : Located item) (x : α) : Located (do
    let r ← get
    let xs ← furtherItems item r.rest.length
    return (⟨x :: xs, List.cons_ne_nil x xs⟩ : { xs : List α // xs ≠ [] })) := by
  refine .of_alike fun n => ⟨_, (located_furtherItems hitem n).bind fun xs =>
    .pure ⟨x :: xs, List.cons_ne_nil x xs⟩, fun r hr => .of_run_eq ?_⟩
  rw [run_get_bind, StateT.run_bind, StateT.run_bind, run_furtherItems_congr hitem le_rfl hr]

theorem located_items (hitem : Located item) : Located (items item) :=
  hitem.bind (located_afterItem hitem)

theorem consumes_items (hitem : Located item) {n : Nat} (hn : Consumes n item) :
    Consumes n (items item) :=
  hn.bind fun x => .of_located (located_afterItem hitem x)

end Lists

theorem decidedBy_ne_nil : DecidedBy 1 fun s => s ≠ [] :=  by
  have hhead := decidedBy_head (Q := (· ≠ none)) (by simp)
  simpa using hhead

theorem ite_atEnd_eq {α : Type} (p q : Reader → Read α) : (do
    let r : Reader ← get
    if r.atEnd then q r else p r) = (do
      let r ← get
      if r.rest ≠ [] then p r else q r) := by
  refine StateT.ext fun r => ?_
  rw [run_get_bind, run_get_bind, ite_not]
  simp only [Reader.atEnd, List.isEmpty_iff]

/-- A choice whether the text goes on. -/
theorem located_of_not_atEnd {α : Type} {p q : Read α} (hp : Located p) (hq : Located q)
    (hlong : Consumes 1 p) : Located (do
      let r ← get
      if r.atEnd then q else p) := by
  rw [ite_atEnd_eq (fun _ => p) fun _ => q]
  exact .ite_head decidedBy_ne_nil hp hq hlong

/-- The times, once the text is known to go on. -/
def timesAhead : Read { ts : List TimeOfDay // ts ≠ [] } := do
  if ← digitFollows then
    items time
  else
    eatEntry [(everyHour, ⟨fullHours, fullHours_ne⟩)] ("a time or " ++ inQuotes everyHour)

theorem times_eq : times = (do
    let r ← get
    if r.atEnd then throw .unexpectedEnd else timesAhead) := by
  refine StateT.ext fun r => ?_
  rw [times, run_get_bind, run_get_bind]
  split <;> rfl

theorem located_times : Located times := by
  have hlist : Consumes 1 (items time) := consumes_items located_time consumes_time
  have hahead : Located timesAhead := .ite_head (decidedBy_class Char.isDigit)
    (located_items located_time) (.eatEntry _ (by decide) (by decide) (List.cons_ne_nil _ _)) hlist
  have hconsumes : Consumes 1 timesAhead := hlist.ite (.eatEntry _ (by decide))
  rw [times_eq]
  exact located_of_not_atEnd hahead (.throw nofun) hconsumes

/-! ### Weekdays -/

theorem located_weekday : Located weekday :=
  .eatEntry _ (by decide) (by decide) (by decide)

theorem located_modifier : Located modifier :=
  .eatEntry _ (by decide) (by decide) (by decide)

theorem located_singular : Located singular := by
  refine located_modifier.bind fun m => Located.eatBlank.bind fun _ => located_weekday.bind fun w => ?_
  exact .fault_if_head (decidedBy_char 's') nofun _ _

/-- A weekday in the plural. -/
def plural : Read Entry := do
  let w ← weekday
  eatChar 's' (inQuotes (w.name.toList ++ ['s']))
  return ⟨w, none⟩

/-- One occurrence of a weekday, with the article or without it. -/
def occurrence : Read Entry := do
  let r ← get
  if r.continuesWith "the".toList then
    eatWord "the".toList
    eatBlank
    singular
  else
    singular

/-- Without a next character, one occurrence is asked for. -/
theorem entry_eq_choice : entry = (do
    let r ← get
    if r.rest.head?.any isUppercase = true then plural else occurrence) := by
  refine StateT.ext fun r => ?_
  rw [entry_eq, run_get_bind, run_get_bind, Reader.peek?]
  cases hhead : r.rest.head? with
  | none =>
      have hnil := List.head?_eq_none_iff.mp hhead
      have hstops : Stops singular [] := stops_singular .last (c := ' ') (w := .monday) (by decide) rfl
      obtain ⟨e, hrun, rfl⟩ := hstops r hnil
      rw [Option.any_none, if_neg Bool.false_ne_true, occurrence, run_get_bind, Reader.continuesWith, hnil]
      exact hrun.symm
  | some c =>
      rw [Option.any_some]
      by_cases hc : isUppercase c = true
      · simp only [hc, if_true]
        rfl
      · simp only [hc]
        rfl

theorem located_plural : Located plural :=
  located_weekday.bind fun _ => (Located.eatChar _ _).bind fun _ => .pure _

theorem consumes_plural : Consumes 1 plural :=
  (Consumes.eatEntry _ (by decide)).bind fun _ => .of_located ((Located.eatChar _ _).bind fun _ => .pure _)

theorem located_occurrence : Located occurrence := by
  have hthe : Located (eatWord "the".toList) := .eatWord (by decide) (by decide)
  have hafter : Located (do eatBlank; singular) := Located.eatBlank.bind fun _ => located_singular
  refine .ite_word (by decide) (hthe.bind fun _ => hafter) hafter located_singular ?_ ?_
  · exact (Consumes.eatWord _).bind fun _ => .of_located hafter
  · intro passed t
    exact run_bind_of_ok (hthe.run_of_reads (reads_eatWord "the".toList t) passed)

theorem located_entry : Located entry := by
  rw [entry_eq_choice]
  exact .ite_head (decidedBy_class isUppercase) located_plural located_occurrence consumes_plural

/-! ### Clauses -/

theorem located_entries : ∀ parenthesized, Located (entries parenthesized)
  | true => (located_items located_entry).bind fun _ => (Located.eatChar _ _).bind fun _ => .pure _
  | false => (located_items located_entry).bind fun _ => .pure _

theorem located_weeks : Located weeks :=
  .eatEntry _ (by decide) (by decide) (by decide)

theorem located_weeksAtLast : Located weeksAtLast := by
  have hrest : Located (do let p ← weeks; return some p) := located_weeks.bind fun _ => .pure _
  exact located_of_not_atEnd (Located.eatBlank.bind fun _ => hrest) (.pure none)
    (Consumes.eatBlank.bind fun _ => .of_located hrest)

theorem located_restrictions : Located restrictions := by
  refine located_of_not_atEnd (Located.eatBlank.bind fun _ => ?_) (.pure _)
    (Consumes.eatBlank.bind fun _ => .of_located ?_)
  all_goals
    refine (Located.eatEntry _ (by decide) (by decide) (by decide)).bind fun introduction => ?_
    cases introduction with
    | weeks p => exact .pure _
    | on =>
        exact Located.eatBlank.bind fun _ => (located_entries false).bind fun _ =>
          located_weeksAtLast.bind fun _ => .pure _
    | parenthesis =>
        exact (located_entries true).bind fun _ => located_weeksAtLast.bind fun _ => .pure _

/-! ### Phrases -/

theorem located_end {α : Type} (a : α) : Located (do
    let r ← get
    if r.atEnd then return a else throw (r.fault "end of input")) := by
  rw [ite_atEnd_eq (fun r => throw (r.fault "end of input")) fun _ => pure a]
  exact .fault_if_head decidedBy_ne_nil (by simp) _ _

theorem located_phrase : Located phrase :=
  (Located.eatWord (by decide) (by decide)).bind fun _ => Located.eatBlank.bind fun _ =>
    located_times.bind fun _ => located_restrictions.bind fun _ => located_end _

end Phrase

/-- The fault stands at the place where the text goes wrong: it shows what stands there, what comes before is
no fault by itself, and no text that goes on alike for thirteen characters is any better. -/
structure SyntaxFault.At (text : String) (place : Nat) (fault : SyntaxFault) : Prop where
  position_eq : fault.position = place
  lt_length : place < text.toList.length
  continues_eq : fault.continues = String.ofList ((text.toList.drop place).take 10)
  continues_ne : fault.continues ≠ ""
  before : (∃ b, Block.ofPhrase (String.ofList (text.toList.take place)) = .ok b)
    ∨ Block.ofPhrase (String.ofList (text.toList.take place)) = .error .unexpectedEnd
    ∨ place = 0 ∧ Block.ofPhrase (String.ofList (text.toList.take place)) = .error .empty
  decisive : ∀ text' : String, text'.toList.take (place + 13) = text.toList.take (place + 13) →
    Block.ofPhrase text' = .error (.unexpectedText fault)

namespace Phrase

open Read Grammar

/-- What comes before a fault is read, or its end is reported. -/
theorem ofPhrase_before_fault {w s : List Char} {fault : SyntaxFault} (hexhausts : Exhausts phrase w)
    (hrun : phrase.run (Reader.ofText (w ++ s)) = .error (.unexpectedText fault)) :
    (∃ b, Block.ofPhrase (String.ofList w) = .ok b)
      ∨ Block.ofPhrase (String.ofList w) = .error .unexpectedEnd
      ∨ w.length = 0 ∧ Block.ofPhrase (String.ofList w) = .error .empty := by
  rcases w with _ | ⟨c, w⟩
  · exact .inr (.inr ⟨rfl, rfl⟩)
  have hne : String.ofList (c :: w) ≠ "" := by simp
  cases hphrase : Block.ofPhrase (String.ofList (c :: w)) with
  | ok b => exact .inl ⟨b, rfl⟩
  | error e =>
      rw [ofPhrase_eq_error_iff hne, String.toList_ofList] at hphrase
      cases fails_phrase hphrase with
      | fault fault => exact absurd hphrase (hexhausts.no_fault fault rfl)
      | unfinished => exact .inr (.inl rfl)
      | other htime =>
          obtain ⟨pre, r, htext, hpre, htime⟩ := htime
          have htext : c :: w = pre ++ r.rest := htext
          cases fails_time htime with
          | fault fault => exact absurd hphrase (hexhausts.no_fault fault rfl)
          | unfinished => exact .inr (.inl rfl)
          | other hbad =>
              -- a literal out of range would be the error of the whole text
              obtain @⟨u, v, _, _, _, _, hrest, hu, hreason⟩ := hbad
              rw [hrest] at htext
              have hthrows := throws_phrase_of_literal hpre hu hreason (v ++ s)
              obtain ⟨e, herror, rfl⟩ := hthrows (Reader.ofText (c :: w ++ s)) (by simp [Reader.ofText, htext])
              rw [hrun] at herror
              cases herror

end Phrase

/-- A text that goes on alike for some characters behind a word has this word, too. -/
theorem exists_append_of_take_eq {α : Type} {n : Nat} {w s t : List α}
    (h : t.take (w.length + n) = (w ++ s).take (w.length + n)) : ∃ s', t = w ++ s' ∧ s'.take n = s.take n := by
  rw [List.take_length_add_append] at h
  refine ⟨t.drop w.length, ?_, ?_⟩
  · have hw := congrArg (List.take w.length) h
    rw [List.take_take, Nat.min_eq_left (Nat.le_add_right _ _), List.take_left] at hw
    conv_lhs => rw [← List.take_append_drop w.length t, hw]
  · have hs := congrArg (List.drop w.length) h
    rwa [List.drop_take, Nat.add_sub_cancel_left, List.drop_left] at hs

/-- Every fault is reported at the place where the text goes wrong. -/
theorem Block.ofPhrase_fault_at {text : String} {fault : SyntaxFault}
    (h : Block.ofPhrase text = .error (.unexpectedText fault)) : ∃ place, fault.At text place := by
  have hne : text ≠ "" := by
    rintro rfl
    cases h
  have hrun := (Phrase.ofPhrase_eq_error_iff hne).mp h
  obtain ⟨w, s, expected, htext, hfault⟩ := Phrase.located_phrase.faults hrun
  have htext : text.toList = w ++ s := htext
  rw [htext] at hrun
  have hreport : ∀ s', (⟨w.reverse ++ [], s'⟩ : Reader).fault expected
      = .unexpectedText ⟨w.length, expected, String.ofList (s'.take 10)⟩ := by
    simp [Reader.fault, Reader.position, Reader.excerptLength]
  have hsame := Except.error.inj (hrun.symm.trans (hfault.run [] rfl))
  rw [hreport] at hsame
  obtain rfl := PhraseError.unexpectedText.inj hsame
  refine ⟨w.length, ?_⟩
  constructor
  · rfl
  · rw [htext]
    simpa [List.length_pos_iff] using hfault.ne_nil
  · rw [htext, List.drop_left]
  · simpa using hfault.ne_nil
  · rw [htext, List.take_left]
    exact Phrase.ofPhrase_before_fault hfault.exhausts hrun
  · intro text' htake
    rw [htext] at htake
    obtain ⟨s', htext', hs'⟩ := exists_append_of_take_eq htake
    have hne' : text' ≠ "" := by
      rintro rfl
      obtain ⟨-, rfl⟩ := List.append_eq_nil_iff.mp htext'.symm
      exact hfault.ne_nil (by simpa using hs'.symm)
    rw [Phrase.ofPhrase_eq_error_iff hne', htext']
    have hrun' := hfault.run [] hs'
    rw [hreport] at hrun'
    have hten : s'.take 10 = s.take 10 := by
      have := congrArg (List.take 10) hs'
      rwa [List.take_take, List.take_take] at this
    rw [hten] at hrun'
    exact hrun'

/-- One occurrence of a weekday that stands in the plural: the fault is its last letter. -/
theorem Block.ofPhrase_firstMondays_fault_at :
    Block.ofPhrase "at 6 AM on the first Mondays" = .error (.unexpectedText ⟨27, "'Monday' after 'first'", "s"⟩)
    ∧ ∃ place, (⟨27, "'Monday' after 'first'", "s"⟩ : SyntaxFault).At "at 6 AM on the first Mondays" place := by
  have hrun : Block.ofPhrase "at 6 AM on the first Mondays"
      = .error (.unexpectedText ⟨27, "'Monday' after 'first'", "s"⟩) := by rfl
  exact ⟨hrun, Block.ofPhrase_fault_at hrun⟩

end Timetable
