import Timetable.Proofs.Phrase.Failures
import Timetable.Proofs.Phrase.Recognition

/-! # Items and lists that are cut off

Of a time, a weekday or a modifier of which only a beginning is left, the rest is asked for
(`Phrase.stops_time`, `Phrase.stops_entry`).  A list can be cut off within an item or within a separator
(`Phrase.ItemsCut`), and then more is asked for, too, unless the separator is the word `and`: the reader
looks for it as a whole, so the list seems to end before what is left of it (`Phrase.items_of_cut`). -/

namespace Timetable

namespace Grammar

/-- The beginnings of the word `and` with its space that are not all of it. -/
def conjunctionBeginnings : List (List Char) :=
  [" ".toList, " a".toList, " an".toList]

end Grammar

namespace Phrase

open Text Read Grammar

variable {q t : List Char} {d : Char}

/-! ### Times -/

theorem stops_eatDigit_nil : Stops eatDigit [] :=
  stops_eatWhere_nil _ _

theorem expects_eatDigit {c : Char} {n : Nat} (hc : Digit c n) : Expects eatDigit [c] c where
  reads := reads_eatDigit hc
  stops h := eq_nil_of_singleton_eq h ▸ stops_eatDigit_nil

theorem reads_hourDigits_digit {c : Char} {n : Nat} (hc : Digit c n) :
    Reads hourDigits [c] (digitValue c) [] := by
  refine (reads_eatDigit hc []).bind ((reads_no_digitFollows rfl).bind ?_)
  rw [if_neg Bool.false_ne_true]
  exact .pure _ []

/-- Wherever it is cut off, what follows the hour of a time does not begin with a digit. -/
theorem head?_of_minute {v w : List Char} {c : Char} {minute : Nat} (hv : MinuteDigits v minute)
    (hc : isBlank c = true) (h : v ++ c :: w = q ++ d :: t) : q.head?.any Char.isDigit = false := by
  cases q with
  | nil => rfl
  | cons e q =>
      have hhead := head?_afterHour (w := w) hv hc
      rw [h] at hhead
      exact hhead

/-- The end of a time, once its hour has been read. -/
theorem stops_afterHour {α : Type} {v w : List Char} {c : Char} {minute : Nat} {half : DayHalf}
    {f : Nat → DayHalf → Read α} (hv : MinuteDigits v minute) (hc : isBlank c = true)
    (hw : Half w half) (h : v ++ c :: w = q ++ d :: t) :
    Stops (do
      let minute ← minuteDigits
      eatBlank
      let half ← dayHalf
      f minute half) q := by
  rcases exists_of_append_eq_append_cons h with ⟨t', ht⟩ | ⟨q', rfl, h'⟩
  · cases hv with
    | absent => simp at ht
    | @present c₁ c₂ m n hm hn =>
        rcases q with _ | ⟨e, q⟩
        · exact (reads_minuteDigits .absent (by simp)).bind_throws stops_eatBlank_nil.bind
        obtain ⟨rfl, -⟩ := List.cons.inj ht
        -- behind the colon, at least one of the two digits is missing
        refine Throws.bind (.get_bind fun r hr => ?_)
        rw [if_pos (by rw [Reader.peek?, hr]; rfl)]
        exact (expects_eatChar ':' _).bind_stops ht fun h =>
          (expects_eatDigit hm).bind_stops h fun h => ((expects_eatDigit hn).stops h).bind
  · have hcolon : q'.head? ≠ some ':' := by
      rcases q' with _ | ⟨e, q'⟩
      · simp
      obtain ⟨rfl, -⟩ := List.cons.inj h'
      rintro heq
      obtain rfl := Option.some.inj heq
      exact absurd hc (by decide)
    have hhalf : Expects dayHalf w half := expects_eatEntry (by decide) (mem_dayHalf_iff.mpr hw)
    exact (reads_minuteDigits hv hcolon).bind_throws
      ((expects_eatBlank hc).bind_stops h' fun h => (hhalf.stops h).bind)

theorem stops_fields {w : List Char} {hour minute : Nat} {half : DayHalf}
    (hw : Literal w hour minute half) (h : w = q ++ d :: t) : Stops fields q := by
  obtain @⟨u, v, w, c, hour, minute, half, hu, hv, hc, hw⟩ := hw
  rw [List.append_assoc] at h
  rcases exists_of_append_eq_append_cons h with ⟨t', ht⟩ | ⟨q', rfl, h'⟩
  · rcases q with _ | ⟨e, q⟩
    · exact (Throws.bind stops_eatDigit_nil).bind
    -- of an hour of two digits the first one is left
    cases hu with
    | one hc => simp at ht
    | two hc hd =>
        obtain ⟨rfl, ht₁⟩ := List.cons.inj ht
        rcases q with _ | ⟨e, q⟩
        · exact (reads_hourDigits_digit hc).bind_throws
            ((reads_minuteDigits .absent (by simp)).bind_throws stops_eatBlank_nil.bind)
        · simp at ht₁
  · exact (reads_hourDigits hu (head?_of_minute hv hc h')).bind_throws (stops_afterHour hv hc hw h')

theorem stops_time {w : List Char} {x : TimeOfDay} (hw : Time w x) (h : w = q ++ d :: t) :
    Stops time q := by
  obtain ⟨hour, minute, half, hw, -⟩ := time_iff.mp hw
  rw [time_eq]
  exact .get_bind fun start _ => (stops_fields hw h).bind

/-! ### Weekdays -/

theorem expects_weekday (w : Weekday) : Expects weekday w.name.toList w :=
  expects_eatEntry (by decide) (mem_weekdayWords_iff.mpr rfl)

theorem expects_modifier {v : List Char} {m : Modifier} (hv : ModifierWord v m) : Expects modifier v m :=
  expects_eatEntry (by decide) (mem_modifierWords_iff.mpr hv)

theorem stops_singular {v : List Char} {c : Char} {m : Modifier} {w : Weekday} (hv : ModifierWord v m)
    (hc : isBlank c = true) (h : v ++ c :: w.name.toList = q ++ d :: t) : Stops singular q :=
  (expects_modifier hv).bind_stops h fun h =>
    (expects_eatBlank hc).bind_stops h fun h => ((expects_weekday w).stops h).bind

theorem stops_entry {w : List Char} {x : Entry} (hw : WeekdayEntry w x) (h : w = q ++ d :: t) :
    Stops entry q := by
  rw [entry_eq]
  refine .get_bind fun r hr => ?_
  rcases q with _ | ⟨e, q⟩
  · rw [Reader.peek?, hr]
    exact fun _ _ => ⟨_, rfl, rfl⟩
  rw [Reader.continuesWith, Reader.peek?, hr, List.head?_cons]
  cases hw with
  | every w =>
      obtain ⟨c, u, hcu, hc⟩ := isUppercase_weekday w ['s']
      obtain ⟨rfl, -⟩ := List.cons.inj (hcu.symm.trans h)
      simp only [hc, if_true]
      exact (expects_weekday w).bind_stops h fun h => ((expects_eatChar 's' _).stops h).bind
  | @one u v c m w hu hv hc =>
      rw [List.append_assoc] at h
      cases hu with
      | absent =>
          obtain ⟨c', v', hcv, hc', hthe⟩ := article_of_modifierWord hv (c :: w.name.toList)
          rw [List.nil_append] at h
          obtain ⟨rfl, -⟩ := List.cons.inj (hcv.symm.trans h)
          have hnot : "the".toList.isPrefixOf (c' :: q) = false := by
            rw [← Bool.not_eq_true, List.isPrefixOf_iff_prefix] at hthe ⊢
            exact fun hbegins => hthe (h ▸ hbegins.trans (List.prefix_append _ _))
          simp only [hc', hnot, Bool.false_eq_true, if_false]
          exact stops_singular hv hc h
      | @present b hb =>
          obtain ⟨rfl, h₁⟩ := List.cons.inj h
          have ht : isUppercase 't' = false := by decide
          simp only [ht, Bool.false_eq_true, if_false]
          -- the letters t and th may also begin the word third
          rcases q with _ | ⟨e, q⟩
          · exact ((expects_modifier .third).stops rfl).bind
          obtain ⟨rfl, h₂⟩ := List.cons.inj h₁
          rcases q with _ | ⟨e, q⟩
          · exact ((expects_modifier .third).stops rfl).bind
          obtain ⟨rfl, -⟩ := List.cons.inj h₂
          exact (expects_eatWord "the".toList).bind_stops h fun h =>
            (expects_eatBlank hb).bind_stops h fun h => stops_singular hv hc h

/-! ### Lists -/

section Lists

variable {α : Type} {item : Read α} {Item : List Char → α → Prop} {F : List Char → Prop}

/-- Where a list can be cut off: within its first item, or behind a shorter list, within the separator or
the item that follows. -/
inductive ItemsCut (Item : List Char → α → Prop) (w : List Char) : List Char → Prop
  | first {q t : List Char} {d : Char} {x : α} (hx : Item (q ++ d :: t) x) : ItemsCut Item w q
  | separator {u s t z : List Char} {d : Char} {ys : List α} (hys : Items Item u ys)
      (hs : Separator (s ++ d :: t)) (hw : w = u ++ (s ++ d :: t) ++ z) : ItemsCut Item w (u ++ s)
  | item {u s v t : List Char} {d : Char} {x : α} {ys : List α} (hys : Items Item u ys)
      (hs : Separator s) (hx : Item (v ++ d :: t) x) : ItemsCut Item w (u ++ (s ++ v))

theorem itemsCut_of_append {w : List Char} {xs : List α} (hw : Items Item w xs) (h : w = q ++ d :: t) :
    ItemsCut Item w q := by
  induction hw generalizing q with
  | one hx => exact .first (h ▸ hx)
  | @more u s v x xs hx hs hxs ih =>
      rw [List.append_assoc] at h
      rcases exists_of_append_eq_append_cons h with ⟨t', rfl⟩ | ⟨q', rfl, h'⟩
      · exact .first hx
      rcases exists_of_append_eq_append_cons h' with ⟨t', rfl⟩ | ⟨q'', rfl, h''⟩
      · exact .separator (.one hx) hs rfl
      cases ih h'' with
      | first hy => exact .item (.one hx) hs hy
      | @separator u' s' t' z d' ys hys hs' hv =>
          rw [← List.append_assoc, ← List.append_assoc]
          refine .separator (z := z) (.more hx hs hys) hs' ?_
          rw [hv]
          simp only [List.append_assoc]
      | @item u' s' v' t' d' y ys hys hs' hy =>
          rw [← List.append_assoc, ← List.append_assoc]
          exact .item (.more hx hs hys) hs' hy

theorem ne_nil_of_items {w : List Char} {xs : List α} (hw : Items Item w xs) : xs ≠ [] := by
  cases hw <;> exact List.cons_ne_nil _ _

/-- An error behind a list is met once the list has been read. -/
theorem throws_items {E : PhraseError → Prop} (hitem : ∀ {w x s}, Item w x → F s → Reads item (w ++ s) x s)
    (hfollow : ∀ {w s}, Separator w → F (w ++ s)) {u s : List Char} {ys : List α}
    (hu : Items Item u ys) (hs : F s) (hne : s ≠ [])
    (hrest : ∀ limit, Throws (furtherItems item (limit + 1)) s E) : Throws (items item) (u ++ s) E := by
  have hlist : ∃ v x w, u = v ++ w ∧ Item v x ∧ F (w ++ s)
      ∧ ∀ limit, (w ++ s).length ≤ limit → Throws (furtherItems item limit) (w ++ s) E := by
    induction hu with
    | one hx =>
        refine ⟨_, _, [], (List.append_nil _).symm, hx, hs, fun limit hlimit => ?_⟩
        have hpositive : 0 < s.length := List.length_pos_iff.mpr hne
        rw [List.nil_append] at hlimit
        obtain ⟨limit, rfl⟩ := Nat.exists_eq_add_one_of_ne_zero (by omega : limit ≠ 0)
        exact hrest limit
    | @more u sep v x xs hx hsep hxs ih =>
        obtain ⟨v', x', w, rfl, hx', hfollow', hthrows⟩ := ih
        refine ⟨u, x, sep ++ (v' ++ w), List.append_assoc _ _ _, hx, ?_, fun limit hlimit => ?_⟩
        · rw [List.append_assoc]
          exact hfollow hsep
        · have hpositive : 0 < sep.length := by cases hsep <;> exact Nat.succ_pos _
          simp only [List.length_append] at hlimit hthrows
          obtain ⟨limit, rfl⟩ := Nat.exists_eq_add_one_of_ne_zero (by omega : limit ≠ 0)
          rw [List.append_assoc, List.append_assoc]
          exact (reads_separator hsep _).bind_throws ((hitem hx' hfollow').bind_throws
            (hthrows limit (by omega)).bind)
  obtain ⟨v, x, w, rfl, hx, hfollow', hthrows⟩ := hlist
  rw [List.append_assoc]
  refine (hitem hx hfollow').bind_throws (.get_bind fun r hr => ?_)
  exact (hthrows _ (by rw [hr])).bind

theorem not_startsSeparator_of_mem_conjunctionBeginnings {s : List Char} (hs : s ∈ conjunctionBeginnings) :
    ¬ StartsSeparator s := by
  have hno : ∀ s ∈ conjunctionBeginnings, s.head? ≠ some ',' ∧ ¬ " and".toList <+: s := by decide
  exact not_or_intro (hno s hs).1 (hno s hs).2

/-- A separator that is cut off is asked for, or it is the word `and`, and the list seems to end. -/
theorem separator_of_cut {s : List Char} (hs : Separator (s ++ d :: t)) :
    Stops separator s ∨ ¬ StartsSeparator s
      ∧ (s = [] ∨ s ∈ conjunctionBeginnings ∧ ∃ c, s ++ d :: t = " and".toList ++ [c]) := by
  generalize hw : s ++ d :: t = w at hs
  cases hs with
  | @comma c hc =>
      rcases s with _ | ⟨e, s⟩
      · exact .inr ⟨by simp [StartsSeparator], .inl rfl⟩
      obtain ⟨rfl, -⟩ := List.cons.inj hw
      refine .inl (.get_bind fun r hr => ?_)
      rw [if_pos (by rw [Reader.peek?, hr]; rfl)]
      exact (expects_eatChar ',' _).bind_stops hw.symm fun h => ((expects_eatBlank hc).stops h).bind
  | @and c hc =>
      have hbegins : s <+: " and".toList := by
        have hlength := congrArg List.length hw
        simp only [List.length_append, List.length_cons, List.length_nil] at hlength
        have hwhole : s <+: [' ', 'a', 'n', 'd', c] := hw ▸ List.prefix_append s _
        refine List.prefix_of_prefix_length_le hwhole (List.prefix_append " and".toList [c]) ?_
        change s.length ≤ 4
        omega
      have hmem : s = [] ∨ s ∈ conjunctionBeginnings ∨ s = " and".toList := by
        have hinits := (List.mem_inits s _).mpr hbegins
        simpa [List.inits, conjunctionBeginnings, or_assoc] using hinits
      rcases hmem with rfl | hs | rfl
      · exact .inr ⟨by simp [StartsSeparator], .inl rfl⟩
      · exact .inr ⟨not_startsSeparator_of_mem_conjunctionBeginnings hs, .inr ⟨hs, c, rfl⟩⟩
      · refine .inl (.get_bind fun r hr => ?_)
        rw [if_neg (by rw [Reader.peek?, hr]; simp), if_pos (by rw [Reader.continuesWith, hr]; rfl)]
        exact (reads_eatBlank (by decide) _).bind_throws
          ((reads_eatWord "and".toList []).bind_throws stops_eatBlank_nil.bind)

/-- A list that is cut off is taken up or asked for, or it seems to end before the word `and`. -/
theorem items_of_cut (hitem : ∀ {w x s}, Item w x → F s → Reads item (w ++ s) x s)
    (hcut : ∀ {w x q t d}, Item w x → w = q ++ d :: t → Stops item q)
    (hfollow : ∀ {w s}, Separator w → F (w ++ s)) (hbegin : ∀ {s t}, Separator (s ++ t) → F s)
    {w : List Char} {xs : List α} (hw : Items Item w xs) (h : w = q ++ d :: t) :
    Finishes (items item) q ∨ ∃ u s z, q = u ++ s ∧ w = u ++ " and".toList ++ z
      ∧ s ∈ conjunctionBeginnings ∧ ∃ ys, Reads (items item) q ys s := by
  cases itemsCut_of_append hw h with
  | first hx => exact .inl (.inr (hcut hx rfl).bind)
  | @separator u s t' z d' ys hys hs hz =>
      rcases separator_of_cut hs with hstops | ⟨hend, hs'⟩
      · have hne : s ≠ [] := by
          rintro rfl
          obtain ⟨e, hrun, -⟩ := hstops ⟨[], []⟩ rfl
          cases hrun
        exact .inl (.inr (throws_items hitem hfollow hys (hbegin hs) hne fun limit => hstops.bind))
      · have hreads : Reads (items item) (u ++ s) ⟨ys, ne_nil_of_items hys⟩ s :=
          reads_items hitem hfollow hys (hbegin hs) hend
        rcases hs' with rfl | ⟨hs', c, hc⟩
        · exact .inl (.inl ⟨_, hreads⟩)
        · refine .inr ⟨u, s, c :: z, rfl, ?_, hs', _, hreads⟩
          rw [hz, hc]
          simp
  | @item u s v t' d' x ys hys hs hx =>
      refine .inl (.inr (throws_items hitem hfollow hys (hfollow hs) ?_ fun limit => ?_))
      · cases hs <;> simp
      · exact (reads_separator hs v).bind_throws (hcut hx rfl).bind

end Lists

end Phrase

end Timetable
