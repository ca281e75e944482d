import Timetable.Phrase.Wording
import Timetable.Proofs.Phrase.Recognition

/-! # Blocks in words are read back

The words for a block are a phrase by the grammar, and what they mean is the block with its times to
the minute (`Block.phrase_wholeMinutes`): a time is written on a clock of twelve hours
(`Grammar.time_phrase`), and a list with commas is one of the lists that the grammar knows
(`Grammar.items_commaList`).  All times of a phrase are whole minutes
(`Grammar.Phrase.wholeMinutes_eq`), so that a block which has been read is written and read again
without a change.  Other blocks lose the seconds of their times and nothing else
(`Block.ofPhrase_toString_eq_ok_iff`). -/

namespace Timetable

/-! ### Whole minutes -/

namespace TimeOfDay

variable (t : TimeOfDay)

theorem hour_lt : t.hour < 24 := by
  have hday := t.lt_day
  unfold microsPerDay at hday
  unfold hour
  omega

theorem minute_lt : t.minute < 60 :=
  Nat.mod_lt _ (by decide)

@[simp] theorem hour_wholeMinute : t.wholeMinute.hour = t.hour := by
  simp only [hour, wholeMinute]
  omega

@[simp] theorem minute_wholeMinute : t.wholeMinute.minute = t.minute := by
  simp only [minute, wholeMinute]
  omega

@[simp] theorem second_wholeMinute : t.wholeMinute.second = 0 := by
  simp only [second, wholeMinute]
  omega

@[simp] theorem microsecond_wholeMinute : t.wholeMinute.microsecond = 0 := by
  simp only [microsecond, wholeMinute]
  omega

theorem wholeMinute_eq_self_iff : t.wholeMinute = t ↔ t.second = 0 ∧ t.microsecond = 0 := by
  constructor
  · intro h
    rw [← h]
    simp
  · rintro ⟨hsecond, hmicrosecond⟩
    unfold second at hsecond
    unfold microsecond at hmicrosecond
    obtain ⟨micros, hlt⟩ := t
    simp only [wholeMinute, mk.injEq] at hsecond hmicrosecond ⊢
    omega

/-- Hour and minute alone make the time to the minute. -/
theorem ofFields?_hour_minute : ofFields? t.hour t.minute 0 0 = some t.wholeMinute := by
  rw [ofFields?, dif_pos ⟨t.hour_lt, t.minute_lt, by decide, by decide⟩]
  simp only [Option.some.injEq, wholeMinute, mk.injEq, hour, minute]
  omega

theorem wholeMinute_of_ofFields? {t : TimeOfDay} {hour minute : Nat}
    (h : ofFields? hour minute 0 0 = some t) : t.wholeMinute = t := by
  unfold ofFields? at h
  split at h
  · obtain rfl := Option.some.inj h
    simp only [wholeMinute, mk.injEq]
    omega
  · cases h

theorem wholeMinute_onTheHour (hour : Fin 24) : (onTheHour hour).wholeMinute = onTheHour hour := by
  simp only [wholeMinute, onTheHour, mk.injEq]
  omega

end TimeOfDay

namespace Block

/-- The block with its times to the minute. -/
def wholeMinutes (b : Block) : Block :=
  { b with
    times := b.times.map TimeOfDay.wholeMinute
    times_ne := fun h => b.times_ne (List.map_eq_nil_iff.mp h) }

theorem wholeMinutes_eq_self_iff {b : Block} :
    b.wholeMinutes = b ↔ ∀ t ∈ b.times, t.wholeMinute = t := by
  obtain ⟨times, days, weeks, htimes, hdays⟩ := b
  have hmap := List.map_inj_left (l := times) (f := TimeOfDay.wholeMinute) (g := id)
  rw [List.map_id] at hmap
  simp only [wholeMinutes, mk.injEq, and_true]
  exact hmap

end Block

/-! ### Words for the parts of a block -/

namespace Grammar

open Text (padded)

theorem digit_digitChar {n : Nat} (h : n < 10) : Digit (Nat.digitChar n) n := by
  have hvalue : ∀ n < 10, (Nat.digitChar n).toNat = '0'.toNat + n := by decide
  exact ⟨h, hvalue n h⟩

theorem padded_one {n : Nat} (h : n < 10) : padded 1 n = [Nat.digitChar n] := by
  simp only [padded, List.nil_append, Nat.mod_eq_of_lt h]

theorem padded_two {n : Nat} (h : n < 100) :
    padded 2 n = [Nat.digitChar (n / 10), Nat.digitChar (n % 10)] := by
  rw [padded, padded_one (by omega)]
  rfl

theorem hour_shortNumber {n : Nat} (hlow : 1 ≤ n) (hhigh : n ≤ 12) : Hour (shortNumber n) n := by
  unfold shortNumber
  split
  · rename_i hten
    rw [padded_one hten]
    exact .one (digit_digitChar hten) hlow hhigh
  · rw [padded_two (by omega)]
    have hn : 10 * (n / 10) + n % 10 = n := by omega
    have hhour : Hour [Nat.digitChar (n / 10), Nat.digitChar (n % 10)] (10 * (n / 10) + n % 10) :=
      .two (digit_digitChar (by omega)) (digit_digitChar (by omega)) (by omega) (by omega)
    rwa [hn] at hhour

theorem minute_padded {n : Nat} (h : n < 60) : Minute (':' :: padded 2 n) n := by
  rw [padded_two (by omega)]
  have hn : 10 * (n / 10) + n % 10 = n := by omega
  have hminute : Minute [':', Nat.digitChar (n / 10), Nat.digitChar (n % 10)]
      (10 * (n / 10) + n % 10) :=
    .present (digit_digitChar (by omega)) (digit_digitChar (by omega)) (by omega)
  rwa [hn] at hminute

theorem half_word (half : DayHalf) : Half half.word half := by
  cases half
  · exact .am
  · exact .pm

/-- The clock of twelve hours shows every hour of the day. -/
theorem hourOfDay_twelveHour (t : TimeOfDay) : hourOfDay t.twelveHour t.half = t.hour := by
  have hlt := t.hour_lt
  unfold TimeOfDay.twelveHour TimeOfDay.half
  by_cases hnoon : t.hour < 12
  · rw [if_pos hnoon]
    simp only [hourOfDay]
    split <;> split <;> omega
  · rw [if_neg hnoon]
    simp only [hourOfDay]
    split <;> split <;> omega

theorem time_phrase (t : TimeOfDay) : Time t.phrase t.wholeMinute := by
  have hhour : Hour (shortNumber t.twelveHour) t.twelveHour := by
    apply hour_shortNumber <;> unfold TimeOfDay.twelveHour <;> split <;> omega
  have hminute : Minute (if t.minute = 0 then [] else ':' :: padded 2 t.minute) t.minute := by
    split
    · rename_i hzero
      rw [hzero]
      exact .absent
    · exact minute_padded t.minute_lt
  apply Time.mk hhour hminute (by decide) (half_word t.half)
  rw [hourOfDay_twelveHour]
  exact t.ofFields?_hour_minute

theorem modifierWord_word (m : Modifier) : ModifierWord m.word.toList m := by
  cases m
  · exact .first
  · exact .second
  · exact .third
  · exact .fourth
  · exact .last

theorem weekdayEntry_phrase (e : Entry) : WeekdayEntry e.phrase e := by
  obtain ⟨w, modifier⟩ := e
  cases modifier with
  | none => exact .every w
  | some m =>
      have harticle : Article "the ".toList := .present (by decide)
      exact .one w harticle (modifierWord_word m) (by decide)

theorem weeks_phrase (p : Parity) : Weeks p.phrase p := by
  cases p
  · exact .even
  · exact .odd

theorem commaList_cons (u v : List Char) (items : List (List Char)) :
    commaList (u :: v :: items) = u ++ [',', ' '] ++ commaList (v :: items) := by
  simp [commaList, List.intercalate]

/-- If each item is written as the grammar has it, then so is the list of them. -/
theorem items_commaList {α β : Type} {Item : List Char → β → Prop} {write : α → List Char}
    {mean : α → β} (h : ∀ x, Item (write x) (mean x)) {xs : List α} (hne : xs ≠ []) :
    Items Item (commaList (xs.map write)) (xs.map mean) := by
  induction xs with
  | nil => exact absurd rfl hne
  | cons x xs ih =>
      cases xs with
      | nil =>
          have hone : commaList ([x].map write) = write x := by simp [commaList, List.intercalate]
          rw [hone]
          exact .one (h x)
      | cons y ys =>
          have hrest := ih (List.cons_ne_nil y ys)
          rw [List.map_cons, List.map_cons, commaList_cons]
          exact .more (h x) (.comma (by decide)) hrest

/-! ### All times of a phrase are whole minutes -/

theorem Time.wholeMinute_eq {u : List Char} {t : TimeOfDay} (h : Time u t) : t.wholeMinute = t := by
  obtain ⟨-, -, -, -, ht⟩ := h
  exact TimeOfDay.wholeMinute_of_ofFields? ht

theorem Times.wholeMinute_eq {u : List Char} {ts : List TimeOfDay} (h : Times u ts) :
    ∀ t ∈ ts, t.wholeMinute = t := by
  cases h with
  | everyHour =>
      intro t ht
      obtain ⟨hour, -, rfl⟩ := List.mem_map.mp ht
      exact TimeOfDay.wholeMinute_onTheHour hour
  | list hts =>
      induction hts with
      | one hx => simpa using hx.wholeMinute_eq
      | more hx hs hxs ih => exact List.forall_mem_cons.mpr ⟨hx.wholeMinute_eq, ih⟩

theorem Phrase.wholeMinutes_eq {text : List Char} {b : Block} (h : Phrase text b) :
    b.wholeMinutes = b := by
  obtain ⟨-, htimes, -, -⟩ := h
  exact Block.wholeMinutes_eq_self_iff.mpr htimes.wholeMinute_eq

end Grammar

/-! ### Whole blocks -/

namespace Block

open Grammar

theorem optional_days_phrase {days : Option (List Entry)} : days ≠ some [] →
    Optional Days (match days with
      | none => []
      | some es => " on ".toList ++ commaList (es.map Entry.phrase)) days := by
  intro hdays
  cases days with
  | none => exact .absent
  | some es =>
      have hne : es ≠ [] := fun h => hdays (by rw [h])
      have hentries : Items WeekdayEntry (commaList (es.map Entry.phrase)) (es.map id) :=
        items_commaList weekdayEntry_phrase hne
      rw [List.map_id] at hentries
      exact .present (by decide) (.on (by decide) hentries)

theorem optional_weeks_phrase (weeks : Option Parity) :
    Optional Weeks (match weeks with
      | none => []
      | some p => ' ' :: p.phrase) weeks := by
  cases weeks with
  | none => exact .absent
  | some p => exact .present (by decide) (weeks_phrase p)

theorem phrase_wholeMinutes (b : Block) : Grammar.Phrase b.phrase b.wholeMinutes := by
  have htimes : Times (commaList (b.times.map TimeOfDay.phrase)) b.wholeMinutes.times :=
    .list (items_commaList time_phrase b.times_ne)
  exact .mk (by decide) htimes (optional_days_phrase b.days_ne) (optional_weeks_phrase b.weeks)

/-- The reader finds the meaning of a phrase. -/
theorem ofPhrase_of_phrase {text : String} {b : Block} (h : Grammar.Phrase text.toList b) :
    Block.ofPhrase text = .ok b := by
  have hne : text.toList.isEmpty = false := by
    rw [List.isEmpty_eq_false_iff]
    intro hnil
    rw [hnil] at h
    nomatch h
  obtain ⟨r, hrun, -⟩ := Phrase.reads_phrase h (Reader.ofText text.toList) rfl
  simp only [Block.ofPhrase, Phrase.read, hne, Bool.false_eq_true, if_false, hrun]
  rfl

/-- What the reader finds is the meaning of a phrase. -/
theorem phrase_of_ofPhrase {text : String} {b : Block} (h : Block.ofPhrase text = .ok b) :
    Grammar.Phrase text.toList b := by
  unfold Block.ofPhrase Phrase.read at h
  split at h
  · cases h
  · cases hrun : Phrase.phrase.run (Reader.ofText text.toList) with
    | error e =>
        rw [hrun] at h
        cases h
    | ok result =>
        rw [hrun] at h
        obtain rfl := Except.ok.inj h
        exact Phrase.phrase_of_run hrun

theorem ofPhrase_toString (b : Block) : Block.ofPhrase (toString b) = .ok b.wholeMinutes := by
  apply ofPhrase_of_phrase
  have htext : (toString b).toList = b.phrase := String.toList_ofList
  rw [htext]
  exact b.phrase_wholeMinutes

/-- Written as a phrase and read again, a block has its times to the minute, and all else as it was.
So it is the same block exactly when its times are whole minutes, as those of every phrase are. -/
theorem ofPhrase_toString_eq_ok_iff (b : Block) :
    Block.ofPhrase (toString b) = .ok b.wholeMinutes
      ∧ (Block.ofPhrase (toString b) = .ok b ↔ ∀ t ∈ b.times, t.second = 0 ∧ t.microsecond = 0)
      ∧ ∀ text, Block.ofPhrase text = .ok b → Block.ofPhrase (toString b) = .ok b := by
  have hreread := b.ofPhrase_toString
  refine ⟨hreread, ?_, ?_⟩
  · rw [hreread, Except.ok.injEq, wholeMinutes_eq_self_iff]
    simp only [TimeOfDay.wholeMinute_eq_self_iff]
  · intro text htext
    rw [hreread, (phrase_of_ofPhrase htext).wholeMinutes_eq]

/-- At midnight and at 6:05 PM on Mondays and the first Friday in odd weeks. -/
def mondaysAndFirstFriday : Block :=
  ⟨[.onTheHour ⟨0, by decide⟩, .ofTwelveHour 6 5 .pm (by decide)],
    some [⟨.monday, none⟩, ⟨.friday, some .first⟩], some .odd, by decide, by decide⟩

/-- Read from another phrase than the one that is written for it, the block is read again all the
same. -/
theorem ofPhrase_toString_mondaysAndFirstFriday :
    Block.ofPhrase "at 12 AM and 06:05 PM (Mondays and 1st Friday) in odd weeks"
        = .ok mondaysAndFirstFriday
      ∧ Block.ofPhrase (toString mondaysAndFirstFriday) = .ok mondaysAndFirstFriday := by
  have hread : Block.ofPhrase "at 12 AM and 06:05 PM (Mondays and 1st Friday) in odd weeks"
      = .ok mondaysAndFirstFriday := by rfl
  exact ⟨hread, mondaysAndFirstFriday.ofPhrase_toString_eq_ok_iff.2.2 _ hread⟩

end Block

end Timetable
