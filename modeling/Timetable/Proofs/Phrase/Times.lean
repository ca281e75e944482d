import Timetable.Phrase.Reading
import Timetable.Proofs.Phrase.Grammar
import Timetable.Proofs.Phrase.Readers

/-! # Reading lists and times

The reader of a list goes on as long as a separator follows, so that it takes up the whole list where
what comes after it does not begin like a separator (`Phrase.sound_items`, `Phrase.reads_items`).  The
reader of the times takes up what the grammar calls times, with the same meaning
(`Phrase.sound_times`, `Phrase.reads_times`). -/

namespace Timetable.Phrase

open Text Read Grammar

/-! ### Separators -/

/-- Does a text begin with a comma or with a space and `and`? -/
def StartsSeparator (s : List Char) : Prop :=
  s.head? = some ',' ∨ " and".toList <+: s

theorem sound_separator {r r' : Reader} {found : Bool} (h : separator.run r = .ok (found, r')) :
    (found = true ∧ ∃ w, Separator w ∧ r.rest = w ++ r'.rest) ∨ (found = false ∧ r' = r) := by
  rw [separator, run_get_bind] at h
  split at h
  · obtain ⟨_, r₁, hcomma, h⟩ := run_bind_eq_ok_iff.mp h
    obtain ⟨_, r₂, hblank, h⟩ := run_bind_eq_ok_iff.mp h
    obtain ⟨rfl, rfl⟩ := run_pure_eq_ok_iff.mp h
    obtain ⟨_, rfl, h₁⟩ := sound_eatChar hcomma
    obtain ⟨_, ⟨c, rfl, hc⟩, h₂⟩ := sound_eatBlank hblank
    refine .inl ⟨rfl, [',', c], .comma hc, ?_⟩
    rw [h₁, h₂]
    rfl
  · split at h
    · rename_i hcontinues
      obtain ⟨_, r₁, hblank, h⟩ := run_bind_eq_ok_iff.mp h
      obtain ⟨_, r₂, hand, h⟩ := run_bind_eq_ok_iff.mp h
      obtain ⟨_, r₃, hblank', h⟩ := run_bind_eq_ok_iff.mp h
      obtain ⟨rfl, rfl⟩ := run_pure_eq_ok_iff.mp h
      obtain ⟨_, ⟨b, rfl, hb⟩, h₁⟩ := sound_eatBlank hblank
      obtain ⟨_, rfl, h₂⟩ := sound_eatWord hand
      obtain ⟨_, ⟨c, rfl, hc⟩, h₃⟩ := sound_eatBlank hblank'
      -- the first blank is the space that was seen before
      obtain ⟨s, hs⟩ := List.isPrefixOf_iff_prefix.mp hcontinues
      rw [h₁] at hs
      obtain rfl : ' ' = b := (List.cons.inj hs).1
      refine .inl ⟨rfl, [' ', 'a', 'n', 'd', c], .and hc, ?_⟩
      rw [h₁, h₂, h₃]
      rfl
    · obtain ⟨rfl, rfl⟩ := run_pure_eq_ok_iff.mp h
      exact .inr ⟨rfl, rfl⟩

theorem reads_separator {w : List Char} (hw : Separator w) (s : List Char) :
    Reads separator (w ++ s) true s := by
  refine .get_bind fun r hr => ?_
  cases hw with
  | comma hc =>
      rw [if_pos (by rw [Reader.peek?, hr]; rfl)]
      exact (reads_eatChar ',' _).bind ((reads_eatBlank hc s).bind (.pure true s))
  | and hc =>
      rw [if_neg (by rw [Reader.peek?, hr]; simp),
        if_pos (by rw [Reader.continuesWith, hr]; rfl)]
      exact (reads_eatBlank (by decide) _).bind
        ((reads_eatWord "and".toList _).bind ((reads_eatBlank hc s).bind (.pure true s)))

theorem reads_no_separator {s : List Char} (hs : ¬ StartsSeparator s) : Reads separator s false s := by
  refine .get_bind fun r hr => ?_
  rw [if_neg (by rw [Reader.peek?, hr]; exact fun hcomma => hs (.inl hcomma)),
    if_neg (by
      rw [Reader.continuesWith, hr]
      exact fun hand => hs (.inr (List.isPrefixOf_iff_prefix.mp hand)))]
  exact .pure false s

/-! ### Lists -/

section Lists

variable {α : Type} {item : Read α} {Item : List Char → α → Prop} {F : List Char → Prop}

/-- After one item, the reader takes up what makes a longer list of it. -/
theorem sound_furtherItems (hitem : Sound item Item) : ∀ {limit : Nat} {r r' : Reader} {u : List Char}
    {x : α} {xs : List α}, (furtherItems item limit).run r = .ok (xs, r') → Item u x →
      ∃ w, Items Item (u ++ w) (x :: xs) ∧ r.rest = w ++ r'.rest
  | 0, r, r', u, x, xs, h, hx => by
      obtain ⟨rfl, rfl⟩ := run_pure_eq_ok_iff.mp h
      exact ⟨[], by rw [List.append_nil]; exact .one hx, rfl⟩
  | limit + 1, r, r', u, x, xs, h, hx => by
      obtain ⟨found, r₁, hseparator, hrun⟩ := run_bind_eq_ok_iff.mp h
      rcases sound_separator hseparator with ⟨rfl, s, hs, h₁⟩ | ⟨rfl, rfl⟩
      · rw [if_pos rfl] at hrun
        obtain ⟨y, r₂, hy, hrun⟩ := run_bind_eq_ok_iff.mp hrun
        obtain ⟨ys, r₃, hys, hrun⟩ := run_bind_eq_ok_iff.mp hrun
        obtain ⟨rfl, rfl⟩ := run_pure_eq_ok_iff.mp hrun
        obtain ⟨v, hv, h₂⟩ := hitem hy
        obtain ⟨w, hw, h₃⟩ := sound_furtherItems hitem hys hv
        refine ⟨s ++ (v ++ w), ?_, ?_⟩
        · rw [← List.append_assoc]
          exact .more hx hs hw
        · rw [h₁, h₂, h₃]
          simp only [List.append_assoc]
      · rw [if_neg Bool.false_ne_true] at hrun
        obtain ⟨rfl, rfl⟩ := run_pure_eq_ok_iff.mp hrun
        exact ⟨[], by rw [List.append_nil]; exact .one hx, rfl⟩

theorem sound_items (hitem : Sound item Item) : Sound (items item) fun w xs => Items Item w xs.1 := by
  intro r xs r' h
  obtain ⟨x, r₁, hx, h⟩ := run_bind_eq_ok_iff.mp h
  rw [run_get_bind] at h
  obtain ⟨ys, r₂, hys, h⟩ := run_bind_eq_ok_iff.mp h
  obtain ⟨rfl, rfl⟩ := run_pure_eq_ok_iff.mp h
  obtain ⟨u, hu, h₁⟩ := hitem hx
  obtain ⟨w, hw, h₂⟩ := sound_furtherItems hitem hys hu
  refine ⟨u ++ w, hw, ?_⟩
  rw [h₁, h₂, List.append_assoc]

/-- A list is one item and what the reader of the further items takes up, if it may take up enough. -/
theorem reads_furtherItems (hitem : ∀ {w x s}, Item w x → F s → Reads item (w ++ s) x s)
    (hfollow : ∀ {w s}, Separator w → F (w ++ s)) {w s : List Char} {xs : List α}
    (hw : Items Item w xs) (hs : F s) (hend : ¬ StartsSeparator s) :
    ∃ u x v ys, w = u ++ v ∧ xs = x :: ys ∧ Item u x ∧ F (v ++ s)
      ∧ ∀ limit, v.length ≤ limit → Reads (furtherItems item limit) (v ++ s) ys s := by
  induction hw with
  | @one u x hx =>
      refine ⟨u, x, [], [], (List.append_nil u).symm, rfl, hx, hs, ?_⟩
      intro limit hlimit
      cases limit with
      | zero => exact .pure [] s
      | succ limit => exact (reads_no_separator hend).bind (.pure [] s)
  | @more u sep v x xs hx hsep hxs ih =>
      obtain ⟨u', x', v', ys, rfl, rfl, hx', hfollow', hreads⟩ := ih
      refine ⟨u, x, sep ++ (u' ++ v'), x' :: ys, List.append_assoc _ _ _, rfl, hx, ?_, ?_⟩
      · rw [List.append_assoc]
        exact hfollow hsep
      · intro limit hlimit
        have hpositive : 0 < sep.length := by
          cases hsep <;> exact Nat.succ_pos _
        simp only [List.length_append] at hlimit
        obtain ⟨limit, rfl⟩ := Nat.exists_eq_add_one_of_ne_zero (by omega : limit ≠ 0)
        rw [List.append_assoc, List.append_assoc]
        exact (reads_separator hsep _).bind ((hitem hx' hfollow').bind
          ((hreads limit (by omega)).bind (.pure (x' :: ys) s)))

theorem reads_items (hitem : ∀ {w x s}, Item w x → F s → Reads item (w ++ s) x s)
    (hfollow : ∀ {w s}, Separator w → F (w ++ s)) {w s : List Char}
    {xs : { xs : List α // xs ≠ [] }} (hw : Items Item w xs.1) (hs : F s)
    (hend : ¬ StartsSeparator s) : Reads (items item) (w ++ s) xs s := by
  obtain ⟨xs, hne⟩ := xs
  obtain ⟨u, x, v, ys, rfl, rfl, hx, hfollow', hreads⟩ := reads_furtherItems hitem hfollow hw hs hend
  rw [List.append_assoc]
  refine (hitem hx hfollow').bind (.get_bind fun r hr => ?_)
  have hlimit : v.length ≤ r.rest.length := by
    rw [hr, List.length_append]
    exact Nat.le_add_right _ _
  exact (hreads _ hlimit).bind (.pure _ s)

end Lists

/-! ### Digits -/

theorem isDigit_iff_toNat {c : Char} : c.isDigit = true ↔ 48 ≤ c.toNat ∧ c.toNat ≤ 57 := by
  simp [Char.isDigit, UInt32.le_iff_toNat_le]

theorem digit_iff {c : Char} {n : Nat} : Digit c n ↔ c.isDigit = true ∧ digitValue c = n := by
  have hzero : '0'.toNat = 48 := rfl
  rw [Digit, isDigit_iff_toNat, digitValue, hzero]
  omega

theorem digit_zero : Digit '0' 0 :=
  digit_iff.mpr ⟨rfl, rfl⟩

theorem isDigit_eq_false_of_isBlank {c : Char} (hc : isBlank c = true) : c.isDigit = false := by
  rw [← Bool.not_eq_true, isDigit_iff_toNat]
  simp only [isBlank, Bool.or_eq_true, Bool.and_eq_true, decide_eq_true_eq, beq_iff_eq] at hc
  omega

theorem sound_eatDigit : Sound eatDigit fun w c => w = [c] ∧ Digit c (digitValue c) := by
  intro r c r' h
  obtain ⟨w, ⟨rfl, hc⟩, hrest⟩ := sound_eatWhere h
  exact ⟨[c], ⟨rfl, digit_iff.mpr ⟨hc, rfl⟩⟩, hrest⟩

theorem reads_eatDigit {c : Char} {n : Nat} (hc : Digit c n) (s : List Char) :
    Reads eatDigit (c :: s) c s :=
  reads_eatWhere (digit_iff.mp hc).1 s

theorem reads_digitFollows {c : Char} {n : Nat} (hc : Digit c n) (s : List Char) :
    Reads digitFollows (c :: s) true (c :: s) := by
  refine .get_bind fun r hr => ?_
  rw [hr, List.head?_cons, Option.any_some, (digit_iff.mp hc).1]
  exact .pure true _

theorem reads_no_digitFollows {s : List Char} (hs : s.head?.any Char.isDigit = false) :
    Reads digitFollows s false s := by
  refine .get_bind fun r hr => ?_
  rw [hr, hs]
  exact .pure false s

theorem run_digitFollows {r r' : Reader} {found : Bool} (h : digitFollows.run r = .ok (found, r')) :
    found = r.rest.head?.any Char.isDigit ∧ r' = r := by
  rw [digitFollows, run_get_bind] at h
  exact run_pure_eq_ok_iff.mp h

/-! ### Hours and minutes -/

theorem sound_hourDigits : Sound hourDigits HourDigits := by
  intro r n r' h
  obtain ⟨c, r₁, hfirst, h⟩ := run_bind_eq_ok_iff.mp h
  obtain ⟨found, r₂, hfound, h⟩ := run_bind_eq_ok_iff.mp h
  obtain ⟨-, rfl⟩ := run_digitFollows hfound
  obtain ⟨_, ⟨rfl, hc⟩, h₁⟩ := sound_eatDigit hfirst
  cases found with
  | true =>
      rw [if_pos rfl] at h
      obtain ⟨d, r₃, hd, h⟩ := run_bind_eq_ok_iff.mp h
      obtain ⟨rfl, rfl⟩ := run_pure_eq_ok_iff.mp h
      obtain ⟨_, ⟨rfl, hd⟩, h₂⟩ := sound_eatDigit hd
      refine ⟨[c, d], .two hc hd, ?_⟩
      rw [h₁, h₂]
      rfl
  | false =>
      rw [if_neg Bool.false_ne_true] at h
      obtain ⟨rfl, rfl⟩ := run_pure_eq_ok_iff.mp h
      exact ⟨[c], .one hc, h₁⟩

/-- Two digits are read as an hour whatever follows them. -/
theorem reads_hourDigits_two {c d : Char} {m n : Nat} (hc : Digit c m) (hd : Digit d n) (s : List Char) :
    Reads hourDigits (c :: d :: s) (10 * m + n) s := by
  refine (reads_eatDigit hc _).bind ((reads_digitFollows hd s).bind ?_)
  rw [if_pos rfl]
  refine (reads_eatDigit hd s).bind ?_
  rw [(digit_iff.mp hc).2, (digit_iff.mp hd).2]
  exact .pure _ s

theorem reads_hourDigits {w s : List Char} {n : Nat} (hw : HourDigits w n)
    (hs : s.head?.any Char.isDigit = false) : Reads hourDigits (w ++ s) n s := by
  cases hw with
  | one hc =>
      refine (reads_eatDigit hc s).bind ((reads_no_digitFollows hs).bind ?_)
      rw [if_neg Bool.false_ne_true, (digit_iff.mp hc).2]
      exact .pure _ s
  | two hc hd => exact reads_hourDigits_two hc hd s

theorem sound_minuteDigits : Sound minuteDigits MinuteDigits := by
  intro r n r' h
  rw [minuteDigits, run_get_bind] at h
  split at h
  · obtain ⟨_, r₁, hcolon, h⟩ := run_bind_eq_ok_iff.mp h
    obtain ⟨c, r₂, hc, h⟩ := run_bind_eq_ok_iff.mp h
    obtain ⟨d, r₃, hd, h⟩ := run_bind_eq_ok_iff.mp h
    obtain ⟨rfl, rfl⟩ := run_pure_eq_ok_iff.mp h
    obtain ⟨_, rfl, h₁⟩ := sound_eatChar hcolon
    obtain ⟨_, ⟨rfl, hc⟩, h₂⟩ := sound_eatDigit hc
    obtain ⟨_, ⟨rfl, hd⟩, h₃⟩ := sound_eatDigit hd
    refine ⟨[':', c, d], .present hc hd, ?_⟩
    rw [h₁, h₂, h₃]
    rfl
  · obtain ⟨rfl, rfl⟩ := run_pure_eq_ok_iff.mp h
    exact ⟨[], .absent, rfl⟩

theorem reads_minuteDigits {w s : List Char} {n : Nat} (hw : MinuteDigits w n)
    (hs : s.head? ≠ some ':') : Reads minuteDigits (w ++ s) n s := by
  refine .get_bind fun r hr => ?_
  cases hw with
  | absent =>
      rw [if_neg (by rw [Reader.peek?, hr]; exact hs)]
      exact .pure 0 s
  | present hc hd =>
      rw [if_pos (by rw [Reader.peek?, hr]; rfl)]
      refine (reads_eatChar ':' _).bind ((reads_eatDigit hc _).bind ((reads_eatDigit hd s).bind ?_))
      rw [(digit_iff.mp hc).2, (digit_iff.mp hd).2]
      exact .pure _ s

/-! ### Times -/

theorem mem_dayHalf_iff {w : List Char} {half : DayHalf} :
    (w, half) ∈ [(DayHalf.am.word, DayHalf.am), (DayHalf.pm.word, DayHalf.pm)] ↔ Half w half := by
  constructor
  · intro h
    rcases List.mem_cons.mp h with h | h
    · obtain ⟨rfl, rfl⟩ := Prod.mk.inj h
      exact .am
    · obtain ⟨rfl, rfl⟩ := Prod.mk.inj (List.mem_singleton.mp h)
      exact .pm
  · rintro (_ | _) <;> decide

/-- A clock of twelve hours shows a time exactly if hour and minute are in their ranges. -/
theorem timeOfFields_eq_ok_iff {hour minute : Nat} {half : DayHalf} {t : TimeOfDay} :
    timeOfFields hour minute half = .ok t ↔ (1 ≤ hour ∧ hour ≤ 12) ∧ minute < 60
      ∧ TimeOfDay.ofFields? (hourOfDay hour half) minute 0 0 = some t := by
  unfold timeOfFields
  split
  · rename_i hhour
    have hlt : hourOfDay hour half < 24 := by
      cases half <;> simp only [hourOfDay] <;> split <;> omega
    split
    · rename_i hminute
      rw [TimeOfDay.ofFields?, dif_pos ⟨hlt, hminute, by decide, by decide⟩, Except.ok.injEq,
        Option.some.injEq]
      simp only [hhour, hminute, and_self, true_and]
      suffices heq : TimeOfDay.ofTwelveHour hour minute half hminute
          = ⟨((hourOfDay hour half * 60 + minute) * 60 + 0) * 1000000 + 0, by
              unfold microsPerDay
              omega⟩ by rw [heq]
      simp only [TimeOfDay.ofTwelveHour, TimeOfDay.mk.injEq]
      cases half <;> simp only [hourOfDay] <;> split <;> omega
    · rename_i hminute
      simp [hminute]
  · rename_i hhour
    simp [hhour]

/-- The parts of a time as it is written. -/
def fields : Read (Nat × Nat × DayHalf) := do
  let hour ← hourDigits
  let minute ← minuteDigits
  eatBlank
  let half ← dayHalf
  return (hour, minute, half)

/-- What is made of the parts, once all of them have been read. -/
def judge (start : Reader) (parts : Nat × Nat × DayHalf) : Read TimeOfDay :=
  match timeOfFields parts.1 parts.2.1 parts.2.2 with
  | .ok t => return t
  | .error reason => do
    let stop ← get
    throw (.badTime (String.ofList (stop.textSince start.position)) reason)

theorem time_eq : time = (do
    let start ← get
    let parts ← fields
    judge start parts) := by
  simp only [fields, bind_assoc, pure_bind]
  rfl

theorem sound_fields : Sound fields fun w parts => Literal w parts.1 parts.2.1 parts.2.2 := by
  intro r parts r' h
  obtain ⟨hour, r₁, hhour, h⟩ := run_bind_eq_ok_iff.mp h
  obtain ⟨minute, r₂, hminute, h⟩ := run_bind_eq_ok_iff.mp h
  obtain ⟨_, r₃, hblank, h⟩ := run_bind_eq_ok_iff.mp h
  obtain ⟨half, r₄, hhalf, h⟩ := run_bind_eq_ok_iff.mp h
  obtain ⟨rfl, rfl⟩ := run_pure_eq_ok_iff.mp h
  obtain ⟨u, hu, h₁⟩ := sound_hourDigits hhour
  obtain ⟨v, hv, h₂⟩ := sound_minuteDigits hminute
  obtain ⟨_, ⟨c, rfl, hc⟩, h₃⟩ := sound_eatBlank hblank
  obtain ⟨w, hw, h₄⟩ := sound_eatEntry hhalf
  refine ⟨u ++ v ++ c :: w, .mk hu hv hc (mem_dayHalf_iff.mp hw), ?_⟩
  rw [h₁, h₂, h₃, h₄]
  simp

/-- What follows the hour of a time does not begin with a digit. -/
theorem head?_afterHour {v w : List Char} {c : Char} {minute : Nat} (hv : MinuteDigits v minute)
    (hc : isBlank c = true) : (v ++ c :: w).head?.any Char.isDigit = false := by
  cases hv with
  | absent => exact isDigit_eq_false_of_isBlank hc
  | present => rfl

theorem reads_fields {w : List Char} {hour minute : Nat} {half : DayHalf}
    (hw : Literal w hour minute half) (s : List Char) : Reads fields (w ++ s) (hour, minute, half) s := by
  obtain @⟨u, v, w, c, hour, minute, half, hu, hv, hc, hw⟩ := hw
  have hcolon : (c :: (w ++ s)).head? ≠ some ':' := by
    intro heq
    obtain rfl := Option.some.inj heq
    exact absurd hc (by decide)
  have htext : u ++ v ++ c :: w ++ s = u ++ (v ++ c :: (w ++ s)) := by simp
  rw [htext]
  exact (reads_hourDigits hu (head?_afterHour hv hc)).bind ((reads_minuteDigits hv hcolon).bind
    ((reads_eatBlank hc _).bind ((reads_eatEntry (by decide) (mem_dayHalf_iff.mpr hw) s).bind
      (.pure _ s))))

/-- A time is a literal of which the clock of twelve hours shows the hour and the minute. -/
theorem time_iff {w : List Char} {t : TimeOfDay} : Time w t ↔
    ∃ hour minute half, Literal w hour minute half ∧ timeOfFields hour minute half = .ok t := by
  constructor
  · rintro @⟨u, v, w, c, hour, minute, half, t, hu, hv, hc, hw, ht⟩
    have hhour : HourDigits u hour ∧ 1 ≤ hour ∧ hour ≤ 12 := by
      cases hu with
      | one hc hlow hhigh => exact ⟨.one hc, hlow, hhigh⟩
      | two hc hd hlow hhigh => exact ⟨.two hc hd, hlow, hhigh⟩
    have hminute : MinuteDigits v minute ∧ minute < 60 := by
      cases hv with
      | absent => exact ⟨.absent, by decide⟩
      | present hc hd hhigh => exact ⟨.present hc hd, Nat.lt_succ_of_le hhigh⟩
    exact ⟨hour, minute, half, .mk hhour.1 hminute.1 hc hw,
      timeOfFields_eq_ok_iff.mpr ⟨hhour.2, hminute.2, ht⟩⟩
  · rintro ⟨hour, minute, half, ⟨hu, hv, hc, hw⟩, ht⟩
    obtain ⟨⟨hlow, hhigh⟩, hsixty, ht⟩ := timeOfFields_eq_ok_iff.mp ht
    refine .mk ?_ ?_ hc hw ht
    · cases hu with
      | one hc => exact .one hc hlow hhigh
      | two hc hd => exact .two hc hd hlow hhigh
    · cases hv with
      | absent => exact .absent
      | present hc hd => exact .present hc hd (Nat.le_of_lt_succ hsixty)

theorem sound_time : Sound time Time := by
  intro r t r' h
  rw [time_eq, run_get_bind] at h
  obtain ⟨parts, r₁, hparts, h⟩ := run_bind_eq_ok_iff.mp h
  obtain ⟨w, hw, hrest⟩ := sound_fields hparts
  unfold judge at h
  split at h
  · rename_i t' hfields
    obtain ⟨rfl, rfl⟩ := run_pure_eq_ok_iff.mp h
    exact ⟨w, time_iff.mpr ⟨_, _, _, hw, hfields⟩, hrest⟩
  · rw [run_get_bind] at h
    exact absurd h run_throw_ne_ok

theorem reads_time {w s : List Char} {t : TimeOfDay} (hw : Time w t) : Reads time (w ++ s) t s := by
  obtain ⟨hour, minute, half, hw, ht⟩ := time_iff.mp hw
  rw [time_eq]
  refine .get_bind fun start hr => (reads_fields hw s).bind ?_
  unfold judge
  rw [ht]
  exact .pure t s

theorem exists_digit_of_hourDigits {w : List Char} {hour : Nat} (hw : HourDigits w hour) :
    ∃ c n u, w = c :: u ∧ Digit c n := by
  cases hw with
  | one hc => exact ⟨_, _, _, rfl, hc⟩
  | two hc hd => exact ⟨_, _, _, rfl, hc⟩

theorem exists_digit_of_literal {w : List Char} {hour minute : Nat} {half : DayHalf}
    (hw : Literal w hour minute half) : ∃ c n u, w = c :: u ∧ Digit c n := by
  obtain ⟨hu, -, -, -⟩ := hw
  obtain ⟨c, n, u, rfl, hc⟩ := exists_digit_of_hourDigits hu
  exact ⟨c, n, _, rfl, hc⟩

theorem exists_digit_of_time {w : List Char} {t : TimeOfDay} (hw : Time w t) :
    ∃ c n u, w = c :: u ∧ Digit c n := by
  obtain ⟨_, _, _, hw, -⟩ := time_iff.mp hw
  exact exists_digit_of_literal hw

theorem exists_digit_of_times {w : List Char} {ts : List TimeOfDay} (hw : Items Time w ts) :
    ∃ c n u, w = c :: u ∧ Digit c n := by
  cases hw with
  | one hx => exact exists_digit_of_time hx
  | more hx hs hxs =>
      obtain ⟨c, n, u, rfl, hc⟩ := exists_digit_of_time hx
      exact ⟨c, n, _, rfl, hc⟩

theorem sound_times : Sound times fun w ts => Times w ts.1 := by
  intro r ts r' h
  rw [times, run_get_bind] at h
  split at h
  · exact absurd h run_throw_ne_ok
  · obtain ⟨found, r₁, hfound, hrun⟩ := run_bind_eq_ok_iff.mp h
    obtain ⟨-, rfl⟩ := run_digitFollows hfound
    split at hrun
    · obtain ⟨w, hw, hrest⟩ := sound_items sound_time hrun
      exact ⟨w, .list hw, hrest⟩
    · obtain ⟨w, hw, hrest⟩ := sound_eatEntry hrun
      obtain ⟨rfl, rfl⟩ := Prod.mk.inj (List.mem_singleton.mp hw)
      exact ⟨everyHour, .everyHour, hrest⟩

theorem reads_times {w s : List Char} {ts : { ts : List TimeOfDay // ts ≠ [] }} (hw : Times w ts.1)
    (hend : ¬ StartsSeparator s) : Reads times (w ++ s) ts s := by
  obtain ⟨ts, hne⟩ := ts
  refine .get_bind fun r hr => ?_
  cases hw with
  | everyHour =>
      rw [if_neg (by rw [Reader.atEnd, hr]; exact Bool.false_ne_true)]
      refine (reads_no_digitFollows rfl).bind ?_
      rw [if_neg Bool.false_ne_true]
      exact reads_eatEntry (List.pairwise_singleton _ _) List.mem_cons_self s
  | list hts =>
      obtain ⟨c, n, u, rfl, hc⟩ := exists_digit_of_times hts
      rw [if_neg (by rw [Reader.atEnd, hr]; exact Bool.false_ne_true)]
      refine (reads_digitFollows hc _).bind ?_
      rw [if_pos rfl]
      exact reads_items (F := fun _ => True) (fun hw _ => reads_time hw) (fun _ => trivial) hts
        trivial hend

end Timetable.Phrase
