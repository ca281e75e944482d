import Timetable.Proofs.Phrase.Times

/-! # Reading weekdays

The reader of the weekdays takes up what the grammar calls entries, with the same meaning.  A weekday in
the singular must not go on with an `s`, so an entry is taken up where no `s` follows
(`Phrase.sound_entry`, `Phrase.reads_entry`). -/

namespace Timetable.Phrase

open Text Read Grammar

/-! ### Words -/

theorem mem_weekdayWords_iff {u : List Char} {w : Weekday} :
    (u, w) ∈ weekdayWords ↔ u = w.name.toList := by
  rw [weekdayWords, List.mem_map]
  constructor
  · rintro ⟨w', -, heq⟩
    obtain ⟨rfl, rfl⟩ := Prod.mk.inj heq
    rfl
  · rintro rfl
    exact ⟨w, w.mem_all, rfl⟩

theorem mem_modifierWords_iff {u : List Char} {m : Modifier} :
    (u, m) ∈ modifierWords ↔ ModifierWord u m := by
  constructor
  · intro h
    simp only [modifierWords, List.mem_cons, Prod.mk.injEq, List.not_mem_nil, or_false] at h
    rcases h with ⟨rfl, rfl⟩ | ⟨rfl, rfl⟩ | ⟨rfl, rfl⟩ | ⟨rfl, rfl⟩ | ⟨rfl, rfl⟩ | ⟨rfl, rfl⟩
      | ⟨rfl, rfl⟩ | ⟨rfl, rfl⟩ | ⟨rfl, rfl⟩
    exacts [.firstInDigits, .first, .secondInDigits, .second, .thirdInDigits, .third,
      .fourthInDigits, .fourth, .last]
  · rintro (_ | _) <;> decide

theorem sound_weekday : Sound weekday fun u w => u = w.name.toList := by
  intro r w r' h
  obtain ⟨u, hu, hrest⟩ := sound_eatEntry h
  exact ⟨u, mem_weekdayWords_iff.mp hu, hrest⟩

theorem reads_weekday (w : Weekday) (s : List Char) : Reads weekday (w.name.toList ++ s) w s :=
  reads_eatEntry (by decide) (mem_weekdayWords_iff.mpr rfl) s

theorem sound_modifier : Sound modifier ModifierWord := by
  intro r m r' h
  obtain ⟨u, hu, hrest⟩ := sound_eatEntry h
  exact ⟨u, mem_modifierWords_iff.mp hu, hrest⟩

theorem reads_modifier {u : List Char} {m : Modifier} (hu : ModifierWord u m) (s : List Char) :
    Reads modifier (u ++ s) m s :=
  reads_eatEntry (by decide) (mem_modifierWords_iff.mpr hu) s

/-! ### Entries -/

theorem isUppercase_weekday (w : Weekday) (s : List Char) :
    ∃ c u, w.name.toList ++ s = c :: u ∧ isUppercase c = true := by
  cases w <;> exact ⟨_, _, rfl, by decide⟩

/-- An entry in the singular begins neither with a capital letter nor, without an article, like one
with an article. -/
theorem article_of_modifierWord {u : List Char} {m : Modifier} (hu : ModifierWord u m)
    (s : List Char) : ∃ c v, u ++ s = c :: v ∧ isUppercase c = false
      ∧ ("the".toList.isPrefixOf (u ++ s)) = false := by
  cases hu <;> exact ⟨_, _, rfl, by decide, rfl⟩

/-- One occurrence of a weekday, after the article. -/
def singular : Read Entry := do
  let m ← modifier
  eatBlank
  let w ← weekday
  let r ← get
  if r.peek? = some 's' then
    throw (r.fault (inQuotes w.name.toList ++ " after " ++ inQuotes m.word.toList))
  return ⟨w, some m⟩

theorem entry_eq : entry = (do
    let r ← get
    match r.peek? with
    | none => throw .unexpectedEnd
    | some c =>
      if isUppercase c then
        let w ← weekday
        eatChar 's' (inQuotes (w.name.toList ++ ['s']))
        return ⟨w, none⟩
      else if r.continuesWith "the".toList then
        eatWord "the".toList
        eatBlank
        singular
      else
        singular) :=
  rfl

theorem sound_singular {u : List Char} (hu : Article u) :
    Sound singular fun v e => WeekdayEntry (u ++ v) e := by
  intro r e r' h
  obtain ⟨m, r₁, hm, h⟩ := run_bind_eq_ok_iff.mp h
  obtain ⟨_, r₂, hblank, h⟩ := run_bind_eq_ok_iff.mp h
  obtain ⟨w, r₃, hw, h⟩ := run_bind_eq_ok_iff.mp h
  rw [run_get_bind] at h
  split at h
  · exact absurd h run_throw_ne_ok
  · obtain ⟨rfl, rfl⟩ := run_pure_eq_ok_iff.mp h
    obtain ⟨v, hv, h₁⟩ := sound_modifier hm
    obtain ⟨_, ⟨c, rfl, hc⟩, h₂⟩ := sound_eatBlank hblank
    obtain ⟨_, rfl, h₃⟩ := sound_weekday hw
    refine ⟨v ++ c :: w.name.toList, ?_, ?_⟩
    · change WeekdayEntry (u ++ (v ++ c :: w.name.toList)) _
      rw [← List.append_assoc]
      exact .one w hu hv hc
    · rw [h₁, h₂, h₃]
      simp

theorem reads_singular {v s : List Char} {c : Char} {m : Modifier} (w : Weekday)
    (hv : ModifierWord v m) (hc : isBlank c = true) (hs : s.head? ≠ some 's') :
    Reads singular (v ++ c :: (w.name.toList ++ s)) ⟨w, some m⟩ s := by
  refine (reads_modifier hv _).bind ((reads_eatBlank hc _).bind ((reads_weekday w s).bind
    (.get_bind fun r hr => ?_)))
  rw [if_neg (by rw [Reader.peek?, hr]; exact hs)]
  exact .pure _ s

theorem sound_entry : Sound entry WeekdayEntry := by
  intro r e r' h
  rw [entry_eq, run_get_bind] at h
  split at h
  · exact absurd h run_throw_ne_ok
  · split at h
    · obtain ⟨w, r₁, hw, h⟩ := run_bind_eq_ok_iff.mp h
      obtain ⟨_, r₂, hs, h⟩ := run_bind_eq_ok_iff.mp h
      obtain ⟨rfl, rfl⟩ := run_pure_eq_ok_iff.mp h
      obtain ⟨_, rfl, h₁⟩ := sound_weekday hw
      obtain ⟨_, rfl, h₂⟩ := sound_eatChar hs
      exact ⟨_, .every w, by rw [h₁, h₂, List.append_assoc]⟩
    · split at h
      · obtain ⟨_, r₁, hthe, h⟩ := run_bind_eq_ok_iff.mp h
        obtain ⟨_, r₂, hblank, h⟩ := run_bind_eq_ok_iff.mp h
        obtain ⟨_, rfl, h₁⟩ := sound_eatWord hthe
        obtain ⟨_, ⟨c, rfl, hc⟩, h₂⟩ := sound_eatBlank hblank
        obtain ⟨v, hv, h₃⟩ := sound_singular (.present hc) h
        refine ⟨_, hv, ?_⟩
        rw [h₁, h₂, h₃]
        rfl
      · exact sound_singular .absent h

theorem reads_entry {w s : List Char} {e : Entry} (hw : WeekdayEntry w e) (hs : s.head? ≠ some 's') :
    Reads entry (w ++ s) e s := by
  rw [entry_eq]
  refine .get_bind fun r hr => ?_
  cases hw with
  | every w =>
      rw [List.append_assoc] at hr ⊢
      obtain ⟨c, u, hcu, hc⟩ := isUppercase_weekday w (['s'] ++ s)
      rw [Reader.peek?, hr, hcu, List.head?_cons]
      simp only [hc, if_true]
      rw [← hcu]
      exact (reads_weekday w _).bind ((reads_eatChar 's' s).bind (.pure _ s))
  | @one u v c m w hu hv hc =>
      have htext : u ++ v ++ c :: w.name.toList ++ s = u ++ (v ++ c :: (w.name.toList ++ s)) := by
        simp
      rw [htext] at hr ⊢
      cases hu with
      | absent =>
          obtain ⟨d, v', hdv, hd, hthe⟩ := article_of_modifierWord hv (c :: (w.name.toList ++ s))
          rw [List.nil_append] at hr ⊢
          rw [Reader.continuesWith, Reader.peek?, hr, hthe, hdv, List.head?_cons]
          simp only [hd, Bool.false_eq_true, if_false]
          rw [← hdv]
          exact reads_singular w hv hc hs
      | present hb =>
          rw [Reader.continuesWith, Reader.peek?, hr]
          exact (reads_eatWord "the".toList _).bind
            ((reads_eatBlank hb _).bind (reads_singular w hv hc hs))

end Timetable.Phrase
