import Mathlib.Tactic
import Timetable.Proofs.Phrase.Grammar

/-! # Where `and` stands in a phrase

The words of a phrase and the blanks between them are such that a blank comes before the letter a in one
place only: where the word `and` separates two items of a list, and there the blank is a space
(`Grammar.Phrase.listSoFar`).  What stands before that space is the phrase as far as an item of the list
(`Grammar.ListSoFar`).  So a parenthesis has been opened before it exactly if it is a list in parentheses
that goes on (`Grammar.ListSoFar.mem_parenthesis_iff`). -/

namespace Timetable.Grammar

open Text (isBlank)

/-! ### Words without a beginning of `and` -/

/-- The text does not begin with the letter a, and no blank of it comes before that letter, whatever it is
followed by. -/
def Unjoined (w : List Char) : Prop :=
  (∃ c ∈ w.head?, c ≠ 'a') ∧ w.IsChain (fun c d => isBlank c = true → d ≠ 'a')
    ∧ ∀ c ∈ w.getLast?, isBlank c = false

instance (w : List Char) : Decidable (Unjoined w) :=
  decidable_of_iff (w.head?.any (· != 'a') = true
    ∧ w.IsChain (fun c d => isBlank c = true → d ≠ 'a') ∧ w.getLast?.any isBlank = false)
    (by simp [Unjoined, Option.any_eq_true, Option.any_eq_false])

namespace Unjoined

variable {w w' : List Char}

theorem head?_append (h : Unjoined w) (v : List Char) : (w ++ v).head? ≠ some 'a' := by
  obtain ⟨⟨c, hmem, hc⟩, -⟩ := h
  rw [List.head?_append, hmem]
  simpa using hc

theorem of_not_mem (hne : w ≠ []) (ha : 'a' ∉ w) (hlast : ∀ c ∈ w.getLast?, isBlank c = false) :
    Unjoined w := by
  obtain ⟨c, u, rfl⟩ := List.exists_cons_of_ne_nil hne
  have hchain : (c :: u).IsChain fun c d => isBlank c = true → d ≠ 'a' :=
    (List.pairwise_of_forall_mem_list fun _ _ d hd _ heq => by rw [heq] at hd; exact ha hd).isChain
  exact ⟨⟨c, rfl, fun hc => ha (hc ▸ List.mem_cons_self)⟩, hchain, hlast⟩

/-- Two such texts may stand one after the other, with any character between them. -/
theorem append_cons (hw : Unjoined w) (c : Char) (hw' : Unjoined w') : Unjoined (w ++ c :: w') := by
  obtain ⟨⟨d, hd, hda⟩, hchain, hlast⟩ := hw
  obtain ⟨⟨e, he, hea⟩, hchain', hlast'⟩ := hw'
  refine ⟨⟨d, by rw [List.head?_append, hd]; rfl, hda⟩, ?_, ?_⟩
  · refine List.isChain_append.mpr ⟨hchain, List.isChain_cons.mpr ⟨?_, hchain'⟩, ?_⟩
    · intro f hf _
      obtain rfl : e = f := Option.some.inj (he.symm.trans hf)
      exact hea
    · intro f hf _ _ hblank
      rw [hlast f hf] at hblank
      cases hblank
  · intro f hf
    cases w' with
    | nil => cases he
    | cons g w' =>
        rw [List.getLast?_append_of_ne_nil _ (List.cons_ne_nil _ _), List.getLast?_cons_cons] at hf
        exact hlast' f hf

end Unjoined

/-! ### Before a blank and the letter a -/

variable {v x y : List Char} {c e : Char}

theorem exists_of_cons_eq_append (h : e :: v = x ++ c :: 'a' :: y) (hc : isBlank c = true)
    (he : isBlank e = true → v.head? ≠ some 'a') : ∃ x', x = e :: x' ∧ v = x' ++ c :: 'a' :: y := by
  cases x with
  | nil =>
      obtain ⟨rfl, rfl⟩ := List.cons.inj h
      exact absurd rfl (he hc)
  | cons e' x' =>
      obtain ⟨rfl, rfl⟩ := List.cons.inj h
      exact ⟨x', rfl, rfl⟩

theorem Unjoined.exists_of_append_eq {w : List Char} (hw : Unjoined w)
    (h : w ++ v = x ++ c :: 'a' :: y) (hc : isBlank c = true) :
    ∃ x', x = w ++ x' ∧ v = x' ++ c :: 'a' :: y := by
  obtain ⟨-, hchain, hlast⟩ := hw
  induction w generalizing x with
  | nil => exact ⟨x, rfl, h⟩
  | cons e w ih =>
      have he : isBlank e = true → (w ++ v).head? ≠ some 'a' := by
        intro hblank
        cases w with
        | nil => exact absurd hblank (by rw [hlast e rfl]; decide)
        | cons d w =>
            intro hd
            exact (List.isChain_cons_cons.mp hchain).1 hblank (Option.some.inj hd)
      obtain ⟨x₁, rfl, h₁⟩ := exists_of_cons_eq_append h hc he
      obtain ⟨x₂, rfl, h₂⟩ := ih h₁ hchain.tail fun d hd => hlast d (by
        cases w with
        | nil => cases hd
        | cons => rwa [List.getLast?_cons_cons])
      exact ⟨x₂, rfl, h₂⟩

/-! ### Items -/

theorem Digit.ne {c d : Char} {n : Nat} (h : Digit c n) (hd : ∀ n < 10, d.toNat ≠ '0'.toNat + n) :
    c ≠ d := by
  rintro rfl
  exact hd n h.1 h.2

theorem ne_of_isBlank {c d : Char} (hc : isBlank c = true) (hd : isBlank d = false) : c ≠ d := by
  rintro rfl
  rw [hc] at hd
  cases hd

theorem Time.forall_mem {w : List Char} {t : TimeOfDay} (h : Time w t) :
    ∀ d ∈ w, d ≠ 'a' ∧ d ≠ '(' := by
  obtain ⟨hu, hv, hc, hw, -⟩ := h
  have hdigit {c : Char} {n : Nat} (h : Digit c n) : c ≠ 'a' ∧ c ≠ '(' :=
    ⟨h.ne (by decide), h.ne (by decide)⟩
  intro d hd
  simp only [List.mem_append, List.mem_cons] at hd
  rcases hd with (hd | hd) | rfl | hd
  · cases hu with
    | one hc =>
        rw [List.mem_singleton.mp hd]
        exact hdigit hc
    | two hc hc' =>
        rcases List.mem_pair.mp hd with rfl | rfl
        exacts [hdigit hc, hdigit hc']
  · cases hv with
    | absent => cases hd
    | present hc hc' =>
        rcases List.mem_cons.mp hd with rfl | hd
        · decide
        · rcases List.mem_pair.mp hd with rfl | rfl
          exacts [hdigit hc, hdigit hc']
  · exact ⟨ne_of_isBlank hc (by decide), ne_of_isBlank hc (by decide)⟩
  · cases hw <;> rcases List.mem_pair.mp hd with rfl | rfl <;> decide

theorem Time.unjoined {w : List Char} {t : TimeOfDay} (h : Time w t) : Unjoined w := by
  have hmem := h.forall_mem
  obtain ⟨-, -, -, hw, -⟩ := h
  refine .of_not_mem (by simp) (fun ha => (hmem 'a' ha).1 rfl) ?_
  cases hw <;> simp <;> decide

theorem ModifierWord.unjoined {u : List Char} {m : Modifier} (h : ModifierWord u m) : Unjoined u := by
  cases h <;> decide

theorem unjoined_weekday (w : Weekday) : Unjoined w.name.toList := by
  cases w <;> decide

theorem WeekdayEntry.unjoined {w : List Char} {e : Entry} (h : WeekdayEntry w e) : Unjoined w := by
  cases h with
  | every w => cases w <;> decide
  | @one u v c m w hu hv hc =>
      have hword : Unjoined (v ++ c :: w.name.toList) := hv.unjoined.append_cons c (unjoined_weekday w)
      cases hu with
      | absent => exact hword
      | @present d hd =>
          have hthe : Unjoined ['t', 'h', 'e'] := by decide
          simpa using hthe.append_cons d hword

theorem Weeks.unjoined {u : List Char} {p : Parity} (h : Weeks u p) : Unjoined u := by
  cases h <;> decide

/-! ### Lists -/

theorem Items.head?_append {α : Type} {Item : List Char → α → Prop} {w : List Char} {xs : List α}
    (hitem : ∀ {w x}, Item w x → Unjoined w) (hw : Items Item w xs) (v : List Char) :
    (w ++ v).head? ≠ some 'a' := by
  cases hw with
  | one hx => exact (hitem hx).head?_append v
  | more hx hs hxs =>
      rw [List.append_assoc, List.append_assoc]
      exact (hitem hx).head?_append _

/-- A blank before the letter a, in a list or behind it, separates two items or stands behind it. -/
theorem Items.exists_of_append_eq {α : Type} {Item : List Char → α → Prop} {w : List Char} {xs : List α}
    (hitem : ∀ {w x}, Item w x → Unjoined w) (hw : Items Item w xs) (h : w ++ v = x ++ c :: 'a' :: y)
    (hc : isBlank c = true) :
    (c = ' ' ∧ (∃ ys, Items Item x ys) ∧ ∃ z, y = 'n' :: 'd' :: z)
      ∨ ∃ x', x = w ++ x' ∧ v = x' ++ c :: 'a' :: y := by
  induction hw generalizing x with
  | one hx => exact .inr ((hitem hx).exists_of_append_eq h hc)
  | @more u s w z zs hx hs hzs ih =>
      rw [List.append_assoc, List.append_assoc] at h
      obtain ⟨x₁, rfl, h₁⟩ := (hitem hx).exists_of_append_eq h hc
      have hhead : (w ++ v).head? ≠ some 'a' := hzs.head?_append hitem v
      -- behind the separator, the induction goes on
      have hrest {s x' : List Char} (hs : Separator s) (hw : w ++ v = x' ++ c :: 'a' :: y) :
          (c = ' ' ∧ (∃ ys, Items Item (u ++ (s ++ x')) ys) ∧ ∃ z, y = 'n' :: 'd' :: z)
            ∨ ∃ x₁, u ++ (s ++ x') = u ++ s ++ w ++ x₁ ∧ v = x₁ ++ c :: 'a' :: y := by
        rcases ih hw with ⟨hspace, ⟨ys, hys⟩, hy⟩ | ⟨x₁, rfl, hv⟩
        · refine .inl ⟨hspace, ⟨z :: ys, ?_⟩, hy⟩
          rw [← List.append_assoc]
          exact .more hx hs hys
        · exact .inr ⟨x₁, by simp only [List.append_assoc], hv⟩
      cases hs with
      | @comma d hd =>
          obtain ⟨x₂, rfl, h₂⟩ := exists_of_cons_eq_append h₁ hc nofun
          obtain ⟨x₃, rfl, h₃⟩ := exists_of_cons_eq_append h₂ hc fun _ => hhead
          exact hrest (.comma hd) h₃
      | @and d hd =>
          cases x₁ with
          | nil =>
              obtain ⟨rfl, h₂⟩ := List.cons.inj h₁
              refine .inl ⟨rfl, ⟨[z], ?_⟩, _, (List.cons.inj h₂).2.symm⟩
              rw [List.append_nil]
              exact .one hx
          | cons e x₁ =>
              obtain ⟨rfl, h₂⟩ := List.cons.inj h₁
              obtain ⟨x₃, rfl, h₃⟩ := exists_of_cons_eq_append h₂ hc nofun
              obtain ⟨x₄, rfl, h₄⟩ := exists_of_cons_eq_append h₃ hc nofun
              obtain ⟨x₅, rfl, h₅⟩ := exists_of_cons_eq_append h₄ hc nofun
              obtain ⟨x₆, rfl, h₆⟩ := exists_of_cons_eq_append h₅ hc fun _ => hhead
              exact hrest (.and hd) h₆

/-! ### Phrases -/

theorem Times.head?_append {u : List Char} {ts : List TimeOfDay} (h : Times u ts) (v : List Char) :
    (u ++ v).head? ≠ some 'a' := by
  cases h with
  | everyHour => nofun
  | list hts => exact hts.head?_append Time.unjoined v

theorem Times.exists_of_append_eq {u : List Char} {ts : List TimeOfDay} (hu : Times u ts)
    (h : u ++ v = x ++ c :: 'a' :: y) (hc : isBlank c = true) :
    (c = ' ' ∧ (∃ ts, Items Time x ts) ∧ ∃ z, y = 'n' :: 'd' :: z)
      ∨ ∃ x', x = u ++ x' ∧ v = x' ++ c :: 'a' :: y := by
  cases hu with
  | everyHour => exact .inr (Unjoined.exists_of_append_eq (by decide) h hc)
  | list hts => exact hts.exists_of_append_eq Time.unjoined h hc

theorem Optional.ne_append_of_weeks {w : List Char} {p : Option Parity} (hw : Optional Weeks w p)
    (hc : isBlank c = true) : w ≠ x ++ c :: 'a' :: y := by
  intro h
  cases hw with
  | absent => simp at h
  | @present d u p hd hu =>
      obtain ⟨x₁, rfl, h₁⟩ := exists_of_cons_eq_append h hc fun _ => by
        simpa using hu.unjoined.head?_append []
      obtain ⟨x₂, rfl, h₂⟩ := hu.unjoined.exists_of_append_eq (by rwa [List.append_nil]) hc
      simp at h₂

/-- The beginning of a phrase, as far as an item of its times or of its weekdays; the flag tells whether
the list is in parentheses. -/
inductive ListSoFar : Bool → List Char → Prop
  | times {c : Char} {u : List Char} {ts : List TimeOfDay} (hc : isBlank c = true)
      (hts : Items Time u ts) : ListSoFar false ('a' :: 't' :: c :: u)
  | on {c d e : Char} {u v : List Char} {ts : List TimeOfDay} {es : List Entry} (hc : isBlank c = true)
      (hts : Times u ts) (hd : isBlank d = true) (he : isBlank e = true)
      (hes : Items WeekdayEntry v es) :
      ListSoFar false ('a' :: 't' :: c :: u ++ d :: 'o' :: 'n' :: e :: v)
  | parenthesized {c d : Char} {u v : List Char} {ts : List TimeOfDay} {es : List Entry}
      (hc : isBlank c = true) (hts : Times u ts) (hd : isBlank d = true)
      (hes : Items WeekdayEntry v es) : ListSoFar true ('a' :: 't' :: c :: u ++ d :: '(' :: v)

/-- In a phrase, a blank before the letter a is the space before `and` between two items of a list. -/
theorem Phrase.listSoFar {text : List Char} {b : Block} (h : Phrase text b)
    (htext : text = x ++ c :: 'a' :: y) (hc : isBlank c = true) :
    c = ' ' ∧ (∃ parenthesized, ListSoFar parenthesized x) ∧ ∃ z, y = 'n' :: 'd' :: z := by
  obtain @⟨d, u, v, w, b, hd, hu, hv, hw⟩ := h
  rw [List.append_assoc] at htext
  obtain ⟨x₁, rfl, h₁⟩ := exists_of_cons_eq_append htext hc nofun
  obtain ⟨x₂, rfl, h₂⟩ := exists_of_cons_eq_append h₁ hc nofun
  obtain ⟨x₃, rfl, h₃⟩ := exists_of_cons_eq_append h₂ hc fun _ => hu.head?_append _
  rcases hu.exists_of_append_eq h₃ hc with ⟨rfl, ⟨ts, hts⟩, hy⟩ | ⟨x₄, rfl, h₄⟩
  · exact ⟨rfl, ⟨false, .times hd hts⟩, hy⟩
  generalize b.days = days at hv
  cases hv with
  | absent => exact absurd h₄ (hw.ne_append_of_weeks hc)
  | @present e v es he hdays =>
      cases hdays with
      | @on f v es hf hes =>
          obtain ⟨x₅, rfl, h₅⟩ := exists_of_cons_eq_append h₄ hc nofun
          obtain ⟨x₆, rfl, h₆⟩ := exists_of_cons_eq_append h₅ hc nofun
          obtain ⟨x₇, rfl, h₇⟩ := exists_of_cons_eq_append h₆ hc nofun
          obtain ⟨x₈, rfl, h₈⟩ := exists_of_cons_eq_append h₇ hc fun _ =>
            hes.head?_append WeekdayEntry.unjoined w
          rcases hes.exists_of_append_eq WeekdayEntry.unjoined h₈ hc with
            ⟨rfl, ⟨es, hes⟩, hy⟩ | ⟨x₉, rfl, h₉⟩
          · exact ⟨rfl, ⟨false, .on hd hu he hf hes⟩, hy⟩
          · exact absurd h₉ (hw.ne_append_of_weeks hc)
      | @parenthesized v es hes =>
          obtain ⟨x₅, rfl, h₅⟩ := exists_of_cons_eq_append h₄ hc nofun
          obtain ⟨x₆, rfl, h₆⟩ := exists_of_cons_eq_append h₅ hc nofun
          change v ++ [')'] ++ w = _ at h₆
          rw [List.append_assoc] at h₆
          rcases hes.exists_of_append_eq WeekdayEntry.unjoined h₆ hc with
            ⟨rfl, ⟨es, hes⟩, hy⟩ | ⟨x₇, rfl, h₇⟩
          · exact ⟨rfl, ⟨true, .parenthesized hd hu he hes⟩, hy⟩
          · obtain ⟨x₈, rfl, h₈⟩ := exists_of_cons_eq_append h₇ hc nofun
            exact absurd h₈ (hw.ne_append_of_weeks hc)

/-! ### Parentheses -/

theorem Separator.not_mem_parenthesis {s : List Char} (h : Separator s) : '(' ∉ s := by
  have hblank {c : Char} (hc : isBlank c = true) : '(' ≠ c := (ne_of_isBlank hc (by decide)).symm
  cases h with
  | comma hc => simp [hblank hc]
  | and hc => simp [hblank hc]

theorem WeekdayEntry.not_mem_parenthesis {w : List Char} {e : Entry} (h : WeekdayEntry w e) :
    '(' ∉ w := by
  have hblank {c : Char} (hc : isBlank c = true) : '(' ≠ c := (ne_of_isBlank hc (by decide)).symm
  have hname (w : Weekday) : '(' ∉ w.name.toList := by cases w <;> decide
  cases h with
  | every w => simp [hname w]
  | @one u v c m w hu hm hc =>
      have hu' : '(' ∉ u := by
        cases hu with
        | absent => simp
        | present hd => simp [hblank hd]
      have hv : '(' ∉ v := by cases hm <;> decide
      simp [hu', hv, hblank hc, hname w]

theorem Items.not_mem_parenthesis {α : Type} {Item : List Char → α → Prop} {w : List Char} {xs : List α}
    (hitem : ∀ {w x}, Item w x → '(' ∉ w) (h : Items Item w xs) : '(' ∉ w := by
  induction h with
  | one hx => exact hitem hx
  | more hx hs hxs ih => simp [hitem hx, hs.not_mem_parenthesis, ih]

theorem Times.not_mem_parenthesis {u : List Char} {ts : List TimeOfDay} (h : Times u ts) : '(' ∉ u := by
  cases h with
  | everyHour => decide
  | list hts => exact hts.not_mem_parenthesis fun hw hmem => (hw.forall_mem _ hmem).2 rfl

theorem ListSoFar.mem_parenthesis_iff {parenthesized : Bool} {x : List Char}
    (h : ListSoFar parenthesized x) : '(' ∈ x ↔ parenthesized = true := by
  have hblank {c : Char} (hc : isBlank c = true) : '(' ≠ c := (ne_of_isBlank hc (by decide)).symm
  cases h with
  | times hc hts => simp [hblank hc, (Times.list hts).not_mem_parenthesis]
  | on hc hts hd he hes =>
      simp [hblank hc, hblank hd, hblank he, hts.not_mem_parenthesis,
        hes.not_mem_parenthesis WeekdayEntry.not_mem_parenthesis]
  | parenthesized => simp

end Timetable.Grammar
