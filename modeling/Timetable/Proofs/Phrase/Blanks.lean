import Timetable.Proofs.Phrase.Conjunctions
import Timetable.Proofs.Phrase.Rendering

/-! # Other blanks

Which blanks stand in a phrase makes no difference to its meaning, but where the grammar has words with a
space in them.  A text with other blanks is split into the parts that the phrase is split into
(`Grammar.Reblanked.append_inv`), so each rule of the grammar holds of it if no such word is changed
(`Grammar.Phrase.reblanked`).  The space before `and` is one of these words: with another blank there, the
text is no phrase (`Block.ofPhrase_sameButBlanks_iff`). -/

namespace Timetable.Grammar

open Text (isBlank)

/-! ### Texts with other blanks -/

/-- The texts are the same, but that a blank of one may be another blank of the other. -/
def SameButBlanks (w w' : List Char) : Prop :=
  List.Forall₂ (fun c d => c = d ∨ isBlank c = true ∧ isBlank d = true) w w'

instance (w w' : List Char) : Decidable (SameButBlanks w w') :=
  inferInstanceAs (Decidable (List.Forall₂ _ w w'))

/-- Wherever the words stand in the first text, they stand in the second one. -/
def Keeps (f w w' : List Char) : Prop :=
  ∀ n, f <+: w.drop n → f <+: w'.drop n

theorem keeps_iff {f w w' : List Char} :
    Keeps f w w' ↔ ∀ n ≤ w.length, f <+: w.drop n → f <+: w'.drop n := by
  refine ⟨fun h n _ => h n, fun h n hn => ?_⟩
  by_cases hle : n ≤ w.length
  · exact h n hle hn
  · rw [List.drop_eq_nil_of_le (by omega), List.prefix_nil] at hn
    rw [hn]
    exact List.nil_prefix

instance (f w w' : List Char) : Decidable (Keeps f w w') :=
  decidable_of_iff' _ keeps_iff

/-- The words that are written with a space. -/
def fixedWordings : List (List Char) :=
  ["every hour".toList, "in even weeks".toList, "in odd weeks".toList]

/-- The second text has other blanks than the first one, but not within the words that are kept. -/
structure Reblanked (kept : List (List Char)) (w w' : List Char) : Prop where
  same : SameButBlanks w w'
  keeps : ∀ f ∈ kept, Keeps f w w'

namespace Keeps

variable {f u u' v v' : List Char}

theorem of_append_left (hlength : u.length = u'.length) (h : Keeps f (u ++ v) (u' ++ v')) :
    Keeps f u u' := by
  intro n hn
  have hwhole : f <+: u'.drop n ++ v'.drop (n - u'.length) := by
    rw [← List.drop_append]
    refine h n ?_
    rw [List.drop_append]
    exact hn.trans (List.prefix_append _ _)
  refine List.prefix_of_prefix_length_le hwhole (List.prefix_append _ _) ?_
  rw [List.length_drop, ← hlength, ← List.length_drop]
  exact hn.length_le

theorem of_append_right (hlength : u.length = u'.length) (h : Keeps f (u ++ v) (u' ++ v')) :
    Keeps f v v' := by
  intro n hn
  have hwhole : f <+: (u' ++ v').drop (u.length + n) :=
    h _ (by rwa [List.drop_length_add_append])
  rwa [hlength, List.drop_length_add_append] at hwhole

theorem eq_of_length (h : Keeps f f u) (hlength : f.length = u.length) : u = f :=
  ((h 0 List.prefix_rfl).eq_of_length hlength).symm

end Keeps

namespace Reblanked

variable {kept : List (List Char)} {u v w : List Char} {c : Char}

theorem append_inv (h : Reblanked kept (u ++ v) w) :
    ∃ u' v', w = u' ++ v' ∧ Reblanked kept u u' ∧ Reblanked kept v v' := by
  have hu : SameButBlanks u (w.take u.length) := (List.forall₂_take_append w u v h.same.flip).flip
  have hv : SameButBlanks v (w.drop u.length) := (List.forall₂_drop_append w u v h.same.flip).flip
  have hkeeps : ∀ f ∈ kept, Keeps f (u ++ v) (w.take u.length ++ w.drop u.length) := by
    rw [List.take_append_drop]
    exact h.keeps
  refine ⟨w.take u.length, w.drop u.length, (List.take_append_drop _ w).symm, ⟨hu, ?_⟩, ⟨hv, ?_⟩⟩
  · exact fun f hf => (hkeeps f hf).of_append_left hu.length_eq
  · exact fun f hf => (hkeeps f hf).of_append_right hu.length_eq

theorem cons_inv (h : Reblanked kept (c :: v) w) : ∃ d v', w = d :: v'
    ∧ (c = d ∨ isBlank c = true ∧ isBlank d = true) ∧ Reblanked kept v v' := by
  obtain ⟨u', v', rfl, hu, hv⟩ := append_inv (u := [c]) h
  obtain ⟨d, hd, rfl⟩ : ∃ d, (c = d ∨ isBlank c = true ∧ isBlank d = true) ∧ u' = [d] := by
    simpa [SameButBlanks, List.forall₂_cons_left_iff] using hu.same
  exact ⟨d, v', rfl, hd, hv⟩

theorem cons_inv_of_isBlank (h : Reblanked kept (c :: v) w) (hc : isBlank c = true) :
    ∃ d v', w = d :: v' ∧ isBlank d = true ∧ Reblanked kept v v' := by
  obtain ⟨d, v', rfl, rfl | ⟨-, hd⟩, hv⟩ := h.cons_inv
  · exact ⟨c, v', rfl, hc, hv⟩
  · exact ⟨d, v', rfl, hd, hv⟩

/-- A text without blanks stays as it is. -/
theorem eq_of_any_isBlank (h : Reblanked kept u w) (hu : u.any isBlank = false) : w = u := by
  induction u generalizing w with
  | nil => exact List.forall₂_nil_left_iff.mp h.same
  | cons c u ih =>
      obtain ⟨d, w', rfl, hcd, hw⟩ := h.cons_inv
      rw [List.any_cons, Bool.or_eq_false_iff] at hu
      rcases hcd with rfl | ⟨hc, -⟩
      · rw [ih hw hu.2]
      · rw [hu.1] at hc
        cases hc

theorem eq_of_mem (h : Reblanked kept u w) (hu : u ∈ kept) : w = u :=
  (h.keeps u hu).eq_of_length h.same.length_eq

end Reblanked

/-! ### The rules of the grammar -/

section

variable {kept : List (List Char)} {w w' : List Char}

theorem Separator.reblanked (hand : " and".toList ∈ kept) (h : Separator w) (hw : Reblanked kept w w') :
    Separator w' := by
  cases h with
  | comma hc =>
      obtain ⟨u, v, rfl, hu, hv⟩ := Reblanked.append_inv (u := [',']) hw
      obtain ⟨d, v', rfl, hd, hv'⟩ := hv.cons_inv_of_isBlank hc
      obtain rfl := hv'.eq_of_any_isBlank (by simp)
      rw [hu.eq_of_any_isBlank (by decide)]
      exact .comma hd
  | and hc =>
      obtain ⟨u, v, rfl, hu, hv⟩ := Reblanked.append_inv (u := " and".toList) hw
      obtain ⟨d, v', rfl, hd, hv'⟩ := hv.cons_inv_of_isBlank hc
      obtain rfl := hv'.eq_of_any_isBlank (by simp)
      rw [hu.eq_of_mem hand]
      exact .and hd

theorem Items.reblanked {α : Type} {Item : List Char → α → Prop} {xs : List α} (hand : " and".toList ∈ kept)
    (hitem : ∀ {w w' x}, Item w x → Reblanked kept w w' → Item w' x) (h : Items Item w xs)
    (hw : Reblanked kept w w') : Items Item w' xs := by
  induction h generalizing w' with
  | one hx => exact .one (hitem hx hw)
  | more hx hs hxs ih =>
      obtain ⟨us, v', rfl, hus, hv⟩ := hw.append_inv
      obtain ⟨u', s', rfl, hu, hs'⟩ := hus.append_inv
      exact .more (hitem hx hu) (hs.reblanked hand hs') (ih hv)

theorem Optional.reblanked {α : Type} {Part : List Char → α → Prop} {x : Option α}
    (hpart : ∀ {w w' x}, Part w x → Reblanked kept w w' → Part w' x) (h : Optional Part w x)
    (hw : Reblanked kept w w') : Optional Part w' x := by
  cases h with
  | absent =>
      obtain rfl := hw.eq_of_any_isBlank (by simp)
      exact .absent
  | present hc hx =>
      obtain ⟨d, v, rfl, hd, hv⟩ := hw.cons_inv_of_isBlank hc
      exact .present hd (hpart hx hv)

theorem Digit.isBlank_eq_false {c : Char} {n : Nat} (h : Digit c n) : isBlank c = false := by
  rw [← Bool.not_eq_true]
  intro hc
  have hdigit : c.isDigit = true := (Phrase.digit_iff.mp h).1
  rw [Phrase.isDigit_eq_false_of_isBlank hc] at hdigit
  cases hdigit

theorem Hour.reblanked {n : Nat} (h : Hour w n) (hw : Reblanked kept w w') : Hour w' n := by
  have hnone : w.any isBlank = false := by
    cases h with
    | one hc => simp [hc.isBlank_eq_false]
    | two hc hd => simp [hc.isBlank_eq_false, hd.isBlank_eq_false]
  rwa [hw.eq_of_any_isBlank hnone]

theorem Minute.reblanked {n : Nat} (h : Minute w n) (hw : Reblanked kept w w') : Minute w' n := by
  have hnone : w.any isBlank = false := by
    cases h with
    | absent => simp
    | present hc hd =>
        have hcolon : isBlank ':' = false := by decide
        simp [hcolon, hc.isBlank_eq_false, hd.isBlank_eq_false]
  rwa [hw.eq_of_any_isBlank hnone]

theorem Half.reblanked {half : DayHalf} (h : Half w half) (hw : Reblanked kept w w') : Half w' half := by
  rwa [hw.eq_of_any_isBlank (by cases h <;> decide)]

theorem Time.reblanked {t : TimeOfDay} (h : Time w t) (hw : Reblanked kept w w') : Time w' t := by
  obtain ⟨hu, hv, hc, hhalf, ht⟩ := h
  obtain ⟨uv, cw, rfl, huv, hcw⟩ := hw.append_inv
  obtain ⟨u', v', rfl, hu', hv'⟩ := huv.append_inv
  obtain ⟨d, half', rfl, hd, hhalf'⟩ := hcw.cons_inv_of_isBlank hc
  exact .mk (hu.reblanked hu') (hv.reblanked hv') hd (hhalf.reblanked hhalf') ht

theorem Times.reblanked {ts : List TimeOfDay} (hand : " and".toList ∈ kept)
    (hevery : "every hour".toList ∈ kept) (h : Times w ts) (hw : Reblanked kept w w') : Times w' ts := by
  cases h with
  | everyHour =>
      rw [hw.eq_of_mem hevery]
      exact .everyHour
  | list hts => exact .list (hts.reblanked hand Time.reblanked hw)

theorem ModifierWord.reblanked {m : Modifier} (h : ModifierWord w m) (hw : Reblanked kept w w') :
    ModifierWord w' m := by
  rwa [hw.eq_of_any_isBlank (by cases h <;> decide)]

theorem Article.reblanked (h : Article w) (hw : Reblanked kept w w') : Article w' := by
  cases h with
  | absent =>
      obtain rfl := hw.eq_of_any_isBlank (by simp)
      exact .absent
  | present hc =>
      obtain ⟨u, v, rfl, hu, hv⟩ := Reblanked.append_inv (u := ['t', 'h', 'e']) hw
      obtain ⟨d, v', rfl, hd, hv'⟩ := hv.cons_inv_of_isBlank hc
      obtain rfl := hv'.eq_of_any_isBlank (by simp)
      rw [hu.eq_of_any_isBlank (by decide)]
      exact .present hd

theorem any_isBlank_weekday (w : Weekday) : w.name.toList.any isBlank = false := by
  cases w <;> decide

theorem WeekdayEntry.reblanked {e : Entry} (h : WeekdayEntry w e) (hw : Reblanked kept w w') :
    WeekdayEntry w' e := by
  cases h with
  | every day =>
      rw [hw.eq_of_any_isBlank (by cases day <;> decide)]
      exact .every day
  | one day hu hm hc =>
      obtain ⟨um, cd, rfl, hum, hcd⟩ := hw.append_inv
      obtain ⟨u', m', rfl, hu', hm'⟩ := hum.append_inv
      obtain ⟨d, day', rfl, hd, hday'⟩ := hcd.cons_inv_of_isBlank hc
      rw [hday'.eq_of_any_isBlank (any_isBlank_weekday day)]
      exact .one day (hu.reblanked hu') (hm.reblanked hm') hd

theorem Days.reblanked {es : List Entry} (hand : " and".toList ∈ kept) (h : Days w es)
    (hw : Reblanked kept w w') : Days w' es := by
  cases h with
  | on hc hes =>
      obtain ⟨u, v, rfl, hu, hv⟩ := Reblanked.append_inv (u := ['o', 'n']) hw
      obtain ⟨d, v', rfl, hd, hv'⟩ := hv.cons_inv_of_isBlank hc
      rw [hu.eq_of_any_isBlank (by decide)]
      exact .on hd (hes.reblanked hand WeekdayEntry.reblanked hv')
  | parenthesized hes =>
      obtain ⟨u, v, rfl, hu, hv⟩ := hw.append_inv
      obtain ⟨p, u', rfl, hp, hu'⟩ := Reblanked.append_inv (u := ['(']) hu
      rw [hp.eq_of_any_isBlank (by decide), hv.eq_of_any_isBlank (by decide)]
      exact .parenthesized (hes.reblanked hand WeekdayEntry.reblanked hu')

end

theorem Weeks.reblanked {w w' : List Char} {p : Parity} {kept : List (List Char)}
    (hkept : fixedWordings ⊆ kept) (h : Weeks w p) (hw : Reblanked kept w w') : Weeks w' p := by
  have hmem : w ∈ fixedWordings := by cases h <;> decide
  rwa [hw.eq_of_mem (hkept hmem)]

/-- A phrase means the same with other blanks, if no words that are written with a space are changed. -/
theorem Phrase.reblanked {w w' : List Char} {b : Block} (h : Phrase w b)
    (hw : Reblanked (" and".toList :: fixedWordings) w w') : Phrase w' b := by
  obtain ⟨hc, hts, hdays, hweeks⟩ := h
  obtain ⟨uv, r', rfl, huv, hr⟩ := hw.append_inv
  obtain ⟨u', v', rfl, hu, hv⟩ := huv.append_inv
  obtain ⟨a, u', rfl, ha, hu⟩ := Reblanked.append_inv (u := ['a', 't']) hu
  obtain ⟨d, u', rfl, hd, hu⟩ := hu.cons_inv_of_isBlank hc
  rw [ha.eq_of_any_isBlank (by decide)]
  exact .mk hd (hts.reblanked (by decide) (by decide) hu)
    (hdays.reblanked (Days.reblanked (by decide)) hv)
    (hweeks.reblanked (Weeks.reblanked (List.subset_cons_self _ _)) hr)

/-- Two phrases that differ in their blanks only have `and` in the same places. -/
theorem Phrase.keeps_and {w w' : List Char} {b : Block} (h : Phrase w' b) (hw : SameButBlanks w w') :
    Keeps " and".toList w w' := by
  rintro n ⟨v, hv⟩
  have hrest : Reblanked [] (' ' :: ("and".toList ++ v)) (w'.drop n) := by
    refine ⟨?_, by simp⟩
    have hdrop : SameButBlanks (w.drop n) (w'.drop n) := List.forall₂_drop n hw
    rwa [← hv] at hdrop
  obtain ⟨c, s, hs, hc, hand⟩ := hrest.cons_inv_of_isBlank (by decide)
  obtain ⟨u, v', rfl, hu, -⟩ := hand.append_inv
  rw [hu.eq_of_any_isBlank (by decide)] at hs
  have htext : w' = w'.take n ++ c :: 'a' :: ('n' :: 'd' :: v') := by
    have hsplit := List.take_append_drop n w'
    rw [hs] at hsplit
    exact hsplit.symm
  obtain ⟨rfl, -⟩ := h.listSoFar htext hc
  rw [hs]
  exact List.prefix_append " and".toList v'

end Timetable.Grammar

namespace Timetable

open Grammar

/-- With other blanks outside the fixed wordings, a phrase is a phrase exactly if the spaces before `and`
stay, and then it means the same. -/
theorem Block.ofPhrase_sameButBlanks_iff {text text' : String} {b : Block} (h : Block.ofPhrase text = .ok b)
    (hsame : SameButBlanks text.toList text'.toList)
    (hkeeps : ∀ f ∈ fixedWordings, Keeps f text.toList text'.toList) :
    ((∃ b', Block.ofPhrase text' = .ok b') ↔ Keeps " and".toList text.toList text'.toList)
      ∧ ∀ b', Block.ofPhrase text' = .ok b' → b' = b := by
  have hphrase := Block.phrase_of_ofPhrase h
  have hother (hand : Keeps " and".toList text.toList text'.toList) : Block.ofPhrase text' = .ok b :=
    Block.ofPhrase_of_phrase (hphrase.reblanked ⟨hsame, List.forall_mem_cons.mpr ⟨hand, hkeeps⟩⟩)
  have hand {b'} (h' : Block.ofPhrase text' = .ok b') : Keeps " and".toList text.toList text'.toList :=
    (Block.phrase_of_ofPhrase h').keeps_and hsame
  refine ⟨⟨fun ⟨b', h'⟩ => hand h', fun hkept => ⟨b, hother hkept⟩⟩, fun b' h' => ?_⟩
  exact Except.ok.inj (h'.symm.trans (hother (hand h')))

/-- A tabulator, a line feed and a no-break space in the phrase for 6 AM and 6 PM. -/
theorem Block.ofPhrase_sixAndEighteen_reblanked : ∃ b, Block.ofPhrase "at 6 AM and 6 PM" = .ok b
    ∧ Block.ofPhrase "at\t6\nAM and\u00a06 PM" = .ok b := by
  obtain ⟨b, hb⟩ : ∃ b, Block.ofPhrase "at 6 AM and 6 PM" = .ok b := ⟨_, rfl⟩
  have hblanks : SameButBlanks "at 6 AM and 6 PM".toList "at\t6\nAM and\u00a06 PM".toList := by decide
  obtain ⟨hiff, hsame⟩ := Block.ofPhrase_sameButBlanks_iff hb hblanks (by decide)
  obtain ⟨b', hb'⟩ := hiff.mpr (by decide)
  exact ⟨b, hb, hsame b' hb' ▸ hb'⟩

/-- A tabulator before `and` ends the phrase, though the grammar has any blank there. -/
theorem Block.ofPhrase_tabulatorBeforeAnd : (∃ b, Block.ofPhrase "at 6 AM and 6 PM" = .ok b)
    ∧ SameButBlanks "at 6 AM and 6 PM".toList "at 6 AM\tand 6 PM".toList
    ∧ (∀ f ∈ fixedWordings, Keeps f "at 6 AM and 6 PM".toList "at 6 AM\tand 6 PM".toList)
    ∧ Block.ofPhrase "at 6 AM\tand 6 PM"
      = .error (.unexpectedText ⟨8, "'on', '(', 'in even weeks' or 'in odd weeks'", "and 6 PM"⟩) :=
  ⟨⟨_, rfl⟩, by decide, by decide, by rfl⟩

end Timetable
