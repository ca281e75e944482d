import Mathlib.Tactic
import Timetable.Calendar.OffsetNotation
import Timetable.Proofs.Text.Stripping
import Timetable.Proofs.Text.UpperCase

/-! # The language of offsets

What stands between the blanks around an offset is a name of UTC (`Offset.UtcName`) or a sign with two pairs
of digits (`Offset.Signed`), and says what the offset is (`Offset.Gives`).  These texts and no others are read
(`Offset.parse_outcome`); a sign with two pairs of digits that no clock shows is out of range, any other text
is malformed. -/

namespace Timetable.Offset

open Text

/-- `Z` or `UTC`, each letter in either case. -/
def UtcName (text : List Char) : Prop :=
  InEitherCase "Z".toList text ∨ InEitherCase "UTC".toList text

/-- Two decimal digits of any script, and the number that they write. -/
inductive TwoDigits : List Char → Nat → Prop
  | mk {c d : Char} {x y : Nat} (hc : decimalValue? c = some x) (hd : decimalValue? d = some y) :
      TwoDigits [c, d] (10 * x + y)

/-- Two digits for the hours, a colon or none, and two digits for the minutes. -/
inductive HoursMinutes : List Char → Nat → Nat → Prop
  | mk {h colon m : List Char} {hours minutes : Nat} (hhours : TwoDigits h hours)
      (hcolon : colon = [] ∨ colon = [':']) (hminutes : TwoDigits m minutes) :
      HoursMinutes (h ++ colon ++ m) hours minutes

/-- A sign, the hours and the minutes. -/
inductive Signed : List Char → Bool → Nat → Nat → Prop
  | ahead {text : List Char} {hours minutes : Nat} (htext : HoursMinutes text hours minutes) :
      Signed ('+' :: text) true hours minutes
  | behind {text : List Char} {hours minutes : Nat} (htext : HoursMinutes text hours minutes) :
      Signed ('-' :: text) false hours minutes

/-- The offset that a text without blanks around it gives: the hours and the minutes must be those of a clock. -/
inductive Gives : List Char → Offset → Prop
  | utc {text : List Char} (hname : UtcName text) : Gives text utc
  | signed {text : List Char} {ahead : Bool} {hours minutes : Nat} {o : Offset}
      (htext : Signed text ahead hours minutes) (hhours : hours ≤ 23) (hminutes : minutes ≤ 59)
      (ho : o.micros = (if ahead then 1 else -1) * ((hours * 60 + minutes) * 60000000)) : Gives text o

variable {text inner : List Char} {ahead : Bool} {hours minutes : Nat} {o : Offset}

theorem namesUtc_iff : namesUtc text = true ↔ UtcName text := by
  unfold namesUtc UtcName
  rw [Bool.or_eq_true, beq_iff_eq, beq_iff_eq, map_toUpper_eq_iff (by decide), map_toUpper_eq_iff (by decide)]

theorem fourDigits_eq_some_iff {a b c d : Char} :
    (do return (10 * (← decimalValue? a) + (← decimalValue? b),
        10 * (← decimalValue? c) + (← decimalValue? d)) : Option (Nat × Nat)) = some (hours, minutes)
      ↔ TwoDigits [a, b] hours ∧ TwoDigits [c, d] minutes := by
  simp only [Option.bind_eq_bind, Option.pure_def, Option.bind_eq_some_iff, Option.some.injEq, Prod.mk.injEq]
  constructor
  · rintro ⟨x, ha, y, hb, z, hc, w, hd, rfl, rfl⟩
    exact ⟨.mk ha hb, .mk hc hd⟩
  · rintro ⟨⟨ha, hb⟩, ⟨hc, hd⟩⟩
    exact ⟨_, ha, _, hb, _, hc, _, hd, rfl, rfl⟩

theorem readHoursMinutes?_eq_some_iff :
    readHoursMinutes? text = some (hours, minutes) ↔ HoursMinutes text hours minutes := by
  constructor
  · intro h
    unfold readHoursMinutes? at h
    split at h
    · obtain ⟨hhours, hminutes⟩ := fourDigits_eq_some_iff.mp h
      exact .mk hhours (.inr rfl) hminutes
    · obtain ⟨hhours, hminutes⟩ := fourDigits_eq_some_iff.mp h
      exact .mk hhours (.inl rfl) hminutes
    · contradiction
  · rintro ⟨⟨ha, hb⟩, hcolon, ⟨hc, hd⟩⟩
    have hdigits := fourDigits_eq_some_iff.mpr ⟨TwoDigits.mk ha hb, TwoDigits.mk hc hd⟩
    rcases hcolon with rfl | rfl
    · change readHoursMinutes? [_, _, _, _] = _
      rwa [readHoursMinutes?]
    · exact hdigits

theorem readSigned?_eq_some_iff :
    readSigned? text = some (ahead, hours, minutes) ↔ Signed text ahead hours minutes := by
  constructor
  · intro h
    unfold readSigned? at h
    split at h
    · obtain ⟨_, hread, heq⟩ := Option.map_eq_some_iff.mp h
      obtain ⟨rfl, rfl⟩ := Prod.mk.inj heq
      exact .ahead (readHoursMinutes?_eq_some_iff.mp hread)
    · obtain ⟨_, hread, heq⟩ := Option.map_eq_some_iff.mp h
      obtain ⟨rfl, rfl⟩ := Prod.mk.inj heq
      exact .behind (readHoursMinutes?_eq_some_iff.mp hread)
    · contradiction
  · rintro (htext | htext) <;> rw [readSigned?, readHoursMinutes?_eq_some_iff.mpr htext] <;> rfl

/-- A name of UTC has no sign. -/
theorem UtcName.not_signed (h : UtcName text) : ¬ Signed text ahead hours minutes := by
  intro hsigned
  obtain ⟨sign, rest, rfl, hsign⟩ : ∃ sign rest, text = sign :: rest ∧ (sign = '+' ∨ sign = '-') := by
    cases hsigned with
    | ahead => exact ⟨_, _, rfl, .inl rfl⟩
    | behind => exact ⟨_, _, rfl, .inr rfl⟩
  have hcase : EitherCase 'Z' sign ∨ EitherCase 'U' sign :=
    h.imp (fun hname => (List.forall₂_cons.mp hname).1) fun hname => (List.forall₂_cons.mp hname).1
  rcases hsign with rfl | rfl <;> exact absurd hcase (by decide)

theorem ofFields?_eq_some_iff {t : TimeOfDay} : TimeOfDay.ofFields? hours minutes 0 0 = some t ↔
    (hours ≤ 23 ∧ minutes ≤ 59) ∧ t.micros = (hours * 60 + minutes) * 60000000 := by
  unfold TimeOfDay.ofFields?
  obtain ⟨micros, hlt⟩ := t
  split
  · rw [Option.some.injEq, TimeOfDay.mk.injEq]
    change _ ↔ _ ∧ micros = _
    omega
  · simp only [reduceCtorEq, false_iff]
    omega

theorem ofFields?_eq_none_iff :
    TimeOfDay.ofFields? hours minutes 0 0 = none ↔ ¬ (hours ≤ 23 ∧ minutes ≤ 59) := by
  unfold TimeOfDay.ofFields?
  split
  · simp only [reduceCtorEq, false_iff]
    omega
  · simp only [true_iff]
    omega

theorem eq_of_micros_eq {o o' : Offset} (h : o.micros = o'.micros) : o = o' := by
  cases o
  cases o'
  rwa [Offset.mk.injEq]

/-! ### Reading an offset -/

variable {text : String}

theorem parse_of_utcName (h : UtcName (strip text.toList)) : parse text = .ok utc := by
  rw [parse, if_pos (namesUtc_iff.mpr h)]

theorem parse_of_signed (h : Signed (strip text.toList) ahead hours minutes) :
    parse text = (TimeOfDay.ofFields? hours minutes 0 0).elim (.error (.outOfRange text))
      fun t => .ok (ofTime ahead t) := by
  have hname : ¬ namesUtc (strip text.toList) = true := fun hname => (namesUtc_iff.mp hname).not_signed h
  rw [parse, if_neg hname, readSigned?_eq_some_iff.mpr h]
  cases htime : TimeOfDay.ofFields? hours minutes 0 0 with
  | none => simp only [htime, Option.elim_none]
  | some t => simp only [htime, Option.elim_some]

theorem exists_parse_of_signed (h : Signed (strip text.toList) ahead hours minutes)
    (hclock : hours ≤ 23 ∧ minutes ≤ 59) : ∃ o, parse text = .ok o
      ∧ o.micros = (if ahead then 1 else -1) * ((hours * 60 + minutes) * 60000000) := by
  rw [parse_of_signed h]
  cases htime : TimeOfDay.ofFields? hours minutes 0 0 with
  | none => exact absurd hclock (ofFields?_eq_none_iff.mp htime)
  | some t =>
      refine ⟨ofTime ahead t, rfl, ?_⟩
      rw [micros_ofTime, (ofFields?_eq_some_iff.mp htime).2]
      cases ahead <;> push_cast <;> simp

theorem parse_of_signed_of_not_clock (h : Signed (strip text.toList) ahead hours minutes)
    (hclock : ¬ (hours ≤ 23 ∧ minutes ≤ 59)) : parse text = .error (.outOfRange text) := by
  rw [parse_of_signed h, ofFields?_eq_none_iff.mpr hclock, Option.elim_none]

theorem parse_of_not_signed (hname : ¬ UtcName (strip text.toList))
    (h : ∀ ahead hours minutes, ¬ Signed (strip text.toList) ahead hours minutes) :
    parse text = .error (.malformed text) := by
  have hread : readSigned? (strip text.toList) = none := by
    refine Option.eq_none_iff_forall_ne_some.mpr fun found hread => ?_
    exact h _ _ _ (readSigned?_eq_some_iff.mp hread)
  rw [parse, if_neg (fun hutc => hname (namesUtc_iff.mp hutc)), hread]

/-- The three ways that reading a text ends. -/
theorem parse_cases (text : String) :
    (∃ o, parse text = .ok o ∧ Gives (strip text.toList) o)
    ∨ (parse text = .error (.outOfRange text) ∧ ∃ ahead hours minutes,
      Signed (strip text.toList) ahead hours minutes ∧ ¬ (hours ≤ 23 ∧ minutes ≤ 59))
    ∨ (parse text = .error (.malformed text) ∧ ∀ ahead hours minutes,
      ¬ Signed (strip text.toList) ahead hours minutes) := by
  by_cases hname : UtcName (strip text.toList)
  · exact .inl ⟨utc, parse_of_utcName hname, .utc hname⟩
  by_cases hsigned : ∃ ahead hours minutes, Signed (strip text.toList) ahead hours minutes
  · obtain ⟨ahead, hours, minutes, hsigned⟩ := hsigned
    by_cases hclock : hours ≤ 23 ∧ minutes ≤ 59
    · obtain ⟨o, hparse, ho⟩ := exists_parse_of_signed hsigned hclock
      exact .inl ⟨o, hparse, .signed hsigned hclock.1 hclock.2 ho⟩
    · exact .inr (.inl ⟨parse_of_signed_of_not_clock hsigned hclock, ahead, hours, minutes, hsigned, hclock⟩)
  · push Not at hsigned
    exact .inr (.inr ⟨parse_of_not_signed hname hsigned, hsigned⟩)

theorem parse_eq_ok_iff : parse text = .ok o ↔ Gives (strip text.toList) o := by
  constructor
  · intro h
    obtain ⟨o', hparse, hgives⟩ | ⟨hparse, -⟩ | ⟨hparse, -⟩ := parse_cases text
    · obtain rfl := Except.ok.inj (hparse.symm.trans h)
      exact hgives
    · exact nomatch hparse.symm.trans h
    · exact nomatch hparse.symm.trans h
  · rintro (hname | ⟨hsigned, hhours, hminutes, ho⟩)
    · exact parse_of_utcName hname
    · obtain ⟨o', hparse, ho'⟩ := exists_parse_of_signed hsigned ⟨hhours, hminutes⟩
      rw [hparse, eq_of_micros_eq (ho'.trans ho.symm)]

theorem Gives.natAbs_le (h : Gives inner o) : o.micros.natAbs ≤ (23 * 60 + 59) * 60000000 := by
  cases h with
  | utc => exact Nat.zero_le _
  | signed htext hhours hminutes ho =>
      rw [ho]
      split <;> omega

/-- A malformed text is never said to be out of range: the two messages begin with different letters. -/
theorem message_malformed_ne (shown : String) :
    (OffsetError.malformed text).message ≠ "Offset out of range: " ++ shown := by
  intro h
  have hhead := congrArg (fun message => message.toList.head?) h
  unfold OffsetError.message at hhead
  have hinvalid : "Invalid offset string ".toList.head? = some 'I' := by decide
  have hrange : "Offset out of range: ".toList.head? = some 'O' := by decide
  simp only [String.toList_append, List.append_assoc, List.head?_append, hinvalid, hrange,
    Option.some_or] at hhead
  exact absurd hhead (by decide)

/-- Exactly the texts that are, between blanks, `Z` or `UTC` in any case, or a sign with hours and minutes of
a clock, are read, and the offset is the one that they give, less than a day either way.  The one error for
any other text is that it is malformed, or, if it is a sign with hours and minutes that no clock shows, that it
is out of range.  The upper case of Unicode makes no further text a name of UTC. -/
theorem parse_outcome (text : String) :
    (∀ o, parse text = .ok o ↔ ∃ inner, StripsTo text.toList inner ∧ Gives inner o)
      ∧ (∀ o, parse text = .ok o → o.micros.natAbs ≤ (23 * 60 + 59) * 60000000)
      ∧ (∀ e, parse text = .error e → (e = .malformed text ∨ e = .outOfRange text)
        ∧ ((∃ shown, e.message = "Offset out of range: " ++ shown)
          ↔ ∃ inner ahead hours minutes, StripsTo text.toList inner ∧ Signed inner ahead hours minutes
            ∧ ¬ (hours ≤ 23 ∧ minutes ≤ 59)))
      ∧ ∀ inner, UtcName inner ↔ toUpper inner = "Z".toList ∨ toUpper inner = "UTC".toList := by
  have hstrip : ∀ inner, StripsTo text.toList inner ↔ strip text.toList = inner :=
    fun _ => strip_eq_iff.symm
  simp only [hstrip, exists_and_left, exists_eq_left']
  refine ⟨fun o => parse_eq_ok_iff, fun o h => (parse_eq_ok_iff.mp h).natAbs_le, ?_, ?_⟩
  · intro e h
    obtain ⟨o, hparse, -⟩ | ⟨hparse, hsigned⟩ | ⟨hparse, hnot⟩ := parse_cases text
    · exact nomatch hparse.symm.trans h
    · obtain rfl := Except.error.inj (hparse.symm.trans h)
      exact ⟨.inr rfl, fun _ => hsigned, fun _ => ⟨text, rfl⟩⟩
    · obtain rfl := Except.error.inj (hparse.symm.trans h)
      refine ⟨.inl rfl, ?_, ?_⟩
      · rintro ⟨shown, hmessage⟩
        exact absurd hmessage (message_malformed_ne shown)
      · rintro ⟨ahead, hours, minutes, hsigned, -⟩
        exact absurd hsigned (hnot ahead hours minutes)
  · intro inner
    unfold UtcName
    rw [toUpper_eq_iff (by decide), toUpper_eq_iff (by decide)]

end Timetable.Offset
