import Timetable.Block
import Timetable.Text.Blank

/-! # The grammar of phrases

Which texts are phrases, and which block each of them means.  Every nonterminal is a relation between a
text and its meaning; `Phrase` is the whole of it.  With WS for one whitespace character:

    phrase   := "at" WS times [WS days] [WS weeks]
    times    := "every hour" | time (sep time)*
    time     := hour [":" minute] WS ("AM" | "PM")
    days     := "on" WS entries | "(" entries ")"
    entries  := entry (sep entry)*
    entry    := weekday "s" | ["the" WS] modifier WS weekday
    weeks    := "in even weeks" | "in odd weeks"
    sep      := "," WS | " and" WS

An hour is one or two digits with a value from 1 to 12, a minute two digits with a value up to 59. -/

namespace Timetable.Grammar

open Text (isBlank)

/-! ### Lists and optional parts -/

/-- A comma or the word `and`, and a whitespace character. -/
inductive Separator : List Char → Prop
  | comma {c : Char} (hc : isBlank c = true) : Separator [',', c]
  | and {c : Char} (hc : isBlank c = true) : Separator [' ', 'a', 'n', 'd', c]

/-- One or more items with separators between them. -/
inductive Items {α : Type} (Item : List Char → α → Prop) : List Char → List α → Prop
  | one {u : List Char} {x : α} (hx : Item u x) : Items Item u [x]
  | more {u s v : List Char} {x : α} {xs : List α} (hx : Item u x) (hs : Separator s)
      (hxs : Items Item v xs) : Items Item (u ++ s ++ v) (x :: xs)

/-- Nothing, or a whitespace character and a part. -/
inductive Optional {α : Type} (Part : List Char → α → Prop) : List Char → Option α → Prop
  | absent : Optional Part [] none
  | present {c : Char} {u : List Char} {x : α} (hc : isBlank c = true) (hx : Part u x) :
      Optional Part (c :: u) (some x)

/-! ### Times -/

/-- An ASCII digit and its value. -/
def Digit (c : Char) (n : Nat) : Prop :=
  n < 10 ∧ c.toNat = '0'.toNat + n

/-- One or two digits with a value from 1 to 12. -/
inductive Hour : List Char → Nat → Prop
  | one {c : Char} {n : Nat} (hc : Digit c n) (hlow : 1 ≤ n) (hhigh : n ≤ 12) : Hour [c] n
  | two {c d : Char} {m n : Nat} (hc : Digit c m) (hd : Digit d n) (hlow : 1 ≤ 10 * m + n)
      (hhigh : 10 * m + n ≤ 12) : Hour [c, d] (10 * m + n)

/-- Nothing, or a colon and two digits with a value up to 59. -/
inductive Minute : List Char → Nat → Prop
  | absent : Minute [] 0
  | present {c d : Char} {m n : Nat} (hc : Digit c m) (hd : Digit d n) (hhigh : 10 * m + n ≤ 59) :
      Minute [':', c, d] (10 * m + n)

inductive Half : List Char → DayHalf → Prop
  | am : Half ['A', 'M'] .am
  | pm : Half ['P', 'M'] .pm

/-- The hour from 0 to 23 that a clock of twelve hours shows: 12 AM is midnight and 12 PM is noon. -/
def hourOfDay (hour : Nat) (half : DayHalf) : Nat :=
  match half with
  | .am => if hour = 12 then 0 else hour
  | .pm => if hour = 12 then 12 else hour + 12

inductive Time : List Char → TimeOfDay → Prop
  | mk {u v w : List Char} {c : Char} {hour minute : Nat} {half : DayHalf} {t : TimeOfDay}
      (hhour : Hour u hour) (hminute : Minute v minute) (hc : isBlank c = true) (hhalf : Half w half)
      (ht : TimeOfDay.ofFields? (hourOfDay hour half) minute 0 0 = some t) :
      Time (u ++ v ++ c :: w) t

/-- One or two digits and their value. -/
inductive HourDigits : List Char → Nat → Prop
  | one {c : Char} {n : Nat} (hc : Digit c n) : HourDigits [c] n
  | two {c d : Char} {m n : Nat} (hc : Digit c m) (hd : Digit d n) : HourDigits [c, d] (10 * m + n)

/-- Nothing, or a colon and two digits and their value. -/
inductive MinuteDigits : List Char → Nat → Prop
  | absent : MinuteDigits [] 0
  | present {c d : Char} {m n : Nat} (hc : Digit c m) (hd : Digit d n) :
      MinuteDigits [':', c, d] (10 * m + n)

/-- A time as it is written, whether or not there is such an hour and such a minute. -/
inductive Literal : List Char → Nat → Nat → DayHalf → Prop
  | mk {u v w : List Char} {c : Char} {hour minute : Nat} {half : DayHalf} (hhour : HourDigits u hour)
      (hminute : MinuteDigits v minute) (hc : isBlank c = true) (hhalf : Half w half) :
      Literal (u ++ v ++ c :: w) hour minute half

/-- All full hours in order, or a list of times. -/
inductive Times : List Char → List TimeOfDay → Prop
  | everyHour : Times "every hour".toList ((List.finRange 24).map TimeOfDay.onTheHour)
  | list {u : List Char} {ts : List TimeOfDay} (hts : Items Time u ts) : Times u ts

/-! ### Weekdays and weeks -/

inductive ModifierWord : List Char → Modifier → Prop
  | firstInDigits : ModifierWord "1st".toList .first
  | first : ModifierWord "first".toList .first
  | secondInDigits : ModifierWord "2nd".toList .second
  | second : ModifierWord "second".toList .second
  | thirdInDigits : ModifierWord "3rd".toList .third
  | third : ModifierWord "third".toList .third
  | fourthInDigits : ModifierWord "4th".toList .fourth
  | fourth : ModifierWord "fourth".toList .fourth
  | last : ModifierWord "last".toList .last

/-- Nothing, or the article and a whitespace character. -/
inductive Article : List Char → Prop
  | absent : Article []
  | present {c : Char} (hc : isBlank c = true) : Article ['t', 'h', 'e', c]

inductive WeekdayEntry : List Char → Entry → Prop
  | every (w : Weekday) : WeekdayEntry (w.name.toList ++ ['s']) ⟨w, none⟩
  | one {u v : List Char} {c : Char} {m : Modifier} (w : Weekday) (hu : Article u)
      (hm : ModifierWord v m) (hc : isBlank c = true) :
      WeekdayEntry (u ++ v ++ c :: w.name.toList) ⟨w, some m⟩

inductive Days : List Char → List Entry → Prop
  | on {c : Char} {u : List Char} {es : List Entry} (hc : isBlank c = true)
      (hes : Items WeekdayEntry u es) : Days ('o' :: 'n' :: c :: u) es
  | parenthesized {u : List Char} {es : List Entry} (hes : Items WeekdayEntry u es) :
      Days ('(' :: u ++ [')']) es

inductive Weeks : List Char → Parity → Prop
  | even : Weeks "in even weeks".toList .even
  | odd : Weeks "in odd weeks".toList .odd

/-! ### Phrases -/

/-- The text is a phrase that means the block. -/
inductive Phrase : List Char → Block → Prop
  | mk {c : Char} {u v w : List Char} {b : Block} (hc : isBlank c = true) (htimes : Times u b.times)
      (hdays : Optional Days v b.days) (hweeks : Optional Weeks w b.weeks) :
      Phrase ('a' :: 't' :: c :: u ++ v ++ w) b

end Timetable.Grammar
