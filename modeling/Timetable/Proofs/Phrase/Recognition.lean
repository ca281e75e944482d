import Timetable.Proofs.Phrase.Weekdays

/-! # Phrases are read as the grammar has them

Every optional clause begins with a whitespace character and a letter or parenthesis that no separator
has in that place, so that the list before it ends there (`Phrase.not_startsSeparator_of_optional`).
The reader of a phrase therefore finds the parts that the grammar names, and none else: a text is read as
a block exactly when it is a phrase that means the block (`Block.ofPhrase_eq_ok_iff`). -/

namespace Timetable.Phrase

open Text Read Grammar

/-! ### Weeks -/

theorem mem_weekClauses_iff {u : List Char} {p : Parity} : (u, p) ∈ weekClauses ↔ Weeks u p := by
  constructor
  · intro h
    simp only [weekClauses, List.map_cons, List.map_nil, List.mem_cons, Prod.mk.injEq,
      List.not_mem_nil, or_false] at h
    rcases h with ⟨rfl, rfl⟩ | ⟨rfl, rfl⟩
    · exact .even
    · exact .odd
  · rintro (_ | _) <;> decide

theorem reads_weeks {u : List Char} {p : Parity} (hu : Weeks u p) (s : List Char) :
    Reads weeks (u ++ s) p s :=
  reads_eatEntry (by decide) (mem_weekClauses_iff.mpr hu) s

theorem sound_weeksAtLast : Sound weeksAtLast (Optional Weeks) := by
  intro r p r' h
  rw [weeksAtLast, run_get_bind] at h
  split at h
  · obtain ⟨rfl, rfl⟩ := run_pure_eq_ok_iff.mp h
    exact ⟨[], .absent, rfl⟩
  · obtain ⟨_, r₁, hblank, h⟩ := run_bind_eq_ok_iff.mp h
    obtain ⟨p, r₂, hp, h⟩ := run_bind_eq_ok_iff.mp h
    obtain ⟨rfl, rfl⟩ := run_pure_eq_ok_iff.mp h
    obtain ⟨_, ⟨c, rfl, hc⟩, h₁⟩ := sound_eatBlank hblank
    obtain ⟨u, hu, h₂⟩ := sound_eatEntry hp
    refine ⟨c :: u, .present hc (mem_weekClauses_iff.mp hu), ?_⟩
    rw [h₁, h₂]
    rfl

theorem reads_weeksAtLast {w : List Char} {p : Option Parity} (hw : Optional Weeks w p) :
    Reads weeksAtLast w p [] := by
  refine .get_bind fun r hr => ?_
  cases hw with
  | absent =>
      rw [if_pos (by rw [Reader.atEnd, hr]; rfl)]
      exact .pure none []
  | @present c u p hc hu =>
      rw [if_neg (by rw [Reader.atEnd, hr]; exact Bool.false_ne_true)]
      have hweeks := reads_weeks hu []
      rw [List.append_nil] at hweeks
      exact (reads_eatBlank hc u).bind (hweeks.bind (.pure (some p) []))

/-! ### What ends a list -/

theorem not_startsSeparator_cons {c : Char} {s : List Char} (hc : isBlank c = true)
    (hs : s.head? ≠ some 'a') : ¬ StartsSeparator (c :: s) := by
  rintro (hcomma | ⟨t, ht⟩)
  · obtain rfl := Option.some.inj hcomma
    exact absurd hc (by decide)
  · obtain rfl := (List.cons.inj ht).2
    exact hs rfl

theorem head_of_weeks {u : List Char} {p : Parity} (hu : Weeks u p) : u.head? = some 'i' := by
  cases hu <;> rfl

theorem not_startsSeparator_of_weeks {w : List Char} {p : Option Parity} (hw : Optional Weeks w p) :
    ¬ StartsSeparator w := by
  cases hw with
  | absent => simp [StartsSeparator]
  | present hc hu => exact not_startsSeparator_cons hc (by rw [head_of_weeks hu]; simp)

/-- What follows the times does not begin like a separator. -/
theorem not_startsSeparator_of_optional {v w : List Char} {days : Option (List Entry)}
    {p : Option Parity} (hv : Optional Days v days) (hw : Optional Weeks w p) :
    ¬ StartsSeparator (v ++ w) := by
  cases hv with
  | absent => exact not_startsSeparator_of_weeks hw
  | present hc hu =>
      refine not_startsSeparator_cons hc ?_
      cases hu <;> simp

theorem head_of_optional_weeks {w : List Char} {p : Option Parity} (hw : Optional Weeks w p) :
    w.head? ≠ some 's' := by
  cases hw with
  | absent => exact nofun
  | present hc hu =>
      intro heq
      obtain rfl := Option.some.inj heq
      exact absurd hc (by decide)

/-! ### Weekdays -/

theorem sound_entries {parenthesized : Bool} : Sound (entries parenthesized) fun w es =>
    ∃ u, w = u ++ (if parenthesized then [')'] else []) ∧ Items WeekdayEntry u es.1 := by
  intro r es r' h
  obtain ⟨es, r₁, hes, h⟩ := run_bind_eq_ok_iff.mp h
  obtain ⟨u, hu, h₁⟩ := sound_items sound_entry hes
  cases parenthesized with
  | true =>
      obtain ⟨_, r₂, hclose, h⟩ := run_bind_eq_ok_iff.mp h
      obtain ⟨rfl, rfl⟩ := run_pure_eq_ok_iff.mp h
      obtain ⟨_, rfl, h₂⟩ := sound_eatChar hclose
      exact ⟨u ++ [')'], ⟨u, rfl, hu⟩, by rw [h₁, h₂, List.append_assoc]⟩
  | false =>
      obtain ⟨rfl, rfl⟩ := run_pure_eq_ok_iff.mp h
      exact ⟨u, ⟨u, (List.append_nil u).symm, hu⟩, h₁⟩

theorem reads_items_entry {u s : List Char} {es : { es : List Entry // es ≠ [] }}
    (hu : Items WeekdayEntry u es.1) (hs : s.head? ≠ some 's') (hend : ¬ StartsSeparator s) :
    Reads (items entry) (u ++ s) es s := by
  refine reads_items (F := fun s => s.head? ≠ some 's') reads_entry ?_ hu hs hend
  rintro w s (_ | _) <;> simp

theorem reads_entries {u s : List Char} {es : { es : List Entry // es ≠ [] }}
    (hu : Items WeekdayEntry u es.1) (hs : s.head? ≠ some 's') (hend : ¬ StartsSeparator s) :
    Reads (entries false) (u ++ s) es s :=
  (reads_items_entry hu hs hend).bind (.pure es s)

theorem reads_parenthesized {u : List Char} {es : { es : List Entry // es ≠ [] }}
    (hu : Items WeekdayEntry u es.1) (s : List Char) :
    Reads (entries true) (u ++ ')' :: s) es s := by
  have hend : ¬ StartsSeparator (')' :: s) := by
    rintro (hcomma | ⟨t, ht⟩)
    · simp at hcomma
    · simp at ht
  exact (reads_items_entry hu (by simp) hend).bind ((reads_eatChar ')' s).bind (.pure es s))

/-! ### Whole phrases -/

/-- The words that begin what follows the times. -/
inductive IntroductionWord : List Char → Introduction → Prop
  | parenthesis : IntroductionWord ['('] .parenthesis
  | on : IntroductionWord ['o', 'n'] .on
  | weeks {u : List Char} {p : Parity} (hu : Weeks u p) : IntroductionWord u (.weeks p)

theorem mem_introductions_iff {u : List Char} {i : Introduction} :
    (u, i) ∈ introductions ↔ IntroductionWord u i := by
  rw [introductions, List.mem_append, List.mem_map]
  constructor
  · rintro (h | ⟨row, hrow, heq⟩)
    · simp only [List.mem_cons, Prod.mk.injEq, List.not_mem_nil, or_false] at h
      rcases h with ⟨rfl, rfl⟩ | ⟨rfl, rfl⟩
      · exact .parenthesis
      · exact .on
    · obtain ⟨rfl, rfl⟩ := Prod.mk.inj heq
      exact .weeks (mem_weekClauses_iff.mp hrow)
  · rintro (_ | _ | hu)
    · exact .inl (by decide)
    · exact .inl (by decide)
    · exact .inr ⟨_, mem_weekClauses_iff.mpr hu, rfl⟩

theorem reads_introduction {u : List Char} {i : Introduction} {expected : String}
    (hu : IntroductionWord u i) (s : List Char) :
    Reads (eatEntry introductions expected) (u ++ s) i s :=
  reads_eatEntry (by decide) (mem_introductions_iff.mpr hu) s

theorem sound_restrictions : Sound restrictions fun w x =>
    ∃ u v, w = u ++ v ∧ Optional Days u x.1.1 ∧ Optional Weeks v x.2 := by
  intro r x r' h
  rw [restrictions, run_get_bind] at h
  split at h
  · obtain ⟨rfl, rfl⟩ := run_pure_eq_ok_iff.mp h
    exact ⟨[], ⟨[], [], rfl, .absent, .absent⟩, rfl⟩
  · obtain ⟨_, r₁, hblank, h⟩ := run_bind_eq_ok_iff.mp h
    obtain ⟨i, r₂, hi, h⟩ := run_bind_eq_ok_iff.mp h
    obtain ⟨_, ⟨c, rfl, hc⟩, h₁⟩ := sound_eatBlank hblank
    obtain ⟨_, hword, h₂⟩ := sound_eatEntry hi
    cases mem_introductions_iff.mp hword with
    | weeks hu =>
      obtain ⟨rfl, rfl⟩ := run_pure_eq_ok_iff.mp h
      refine ⟨c :: _, ⟨[], _, rfl, .absent, .present hc hu⟩, ?_⟩
      rw [h₁, h₂]
      rfl
    | on =>
      obtain ⟨_, r₃, hblank', h⟩ := run_bind_eq_ok_iff.mp h
      obtain ⟨es, r₄, hes, h⟩ := run_bind_eq_ok_iff.mp h
      obtain ⟨p, r₅, hp, h⟩ := run_bind_eq_ok_iff.mp h
      obtain ⟨rfl, rfl⟩ := run_pure_eq_ok_iff.mp h
      obtain ⟨_, ⟨d, rfl, hd⟩, h₃⟩ := sound_eatBlank hblank'
      obtain ⟨_, ⟨v, rfl, hv⟩, h₄⟩ := sound_entries hes
      obtain ⟨w, hw, h₅⟩ := sound_weeksAtLast hp
      refine ⟨c :: 'o' :: 'n' :: d :: v ++ w, ⟨_, w, rfl, .present hc (.on hd hv), hw⟩, ?_⟩
      rw [h₁, h₂, h₃, h₄, h₅]
      simp
    | parenthesis =>
      obtain ⟨es, r₃, hes, h⟩ := run_bind_eq_ok_iff.mp h
      obtain ⟨p, r₄, hp, h⟩ := run_bind_eq_ok_iff.mp h
      obtain ⟨rfl, rfl⟩ := run_pure_eq_ok_iff.mp h
      obtain ⟨_, ⟨v, rfl, hv⟩, h₃⟩ := sound_entries hes
      obtain ⟨w, hw, h₄⟩ := sound_weeksAtLast hp
      refine ⟨c :: ('(' :: v ++ [')']) ++ w,
        ⟨_, w, rfl, .present hc (.parenthesized hv), hw⟩, ?_⟩
      rw [h₁, h₂, h₃, h₄]
      simp

theorem reads_restrictions {u v : List Char}
    {x : { days : Option (List Entry) // days ≠ some [] } × Option Parity}
    (hu : Optional Days u x.1.1) (hv : Optional Weeks v x.2) : Reads restrictions (u ++ v) x [] := by
  obtain ⟨⟨days, hdays⟩, p⟩ := x
  refine .get_bind fun r hr => ?_
  cases hu with
  | absent =>
      cases hv with
      | absent =>
          rw [if_pos (by rw [Reader.atEnd, hr]; rfl)]
          exact .pure _ []
      | @present c v p hc hp =>
          rw [if_neg (by rw [Reader.atEnd, hr]; exact Bool.false_ne_true)]
          refine (reads_eatBlank hc v).bind ?_
          rw [← List.append_nil v]
          exact (reads_introduction (.weeks hp) []).bind (.pure _ [])
  | @present c u es hc hu =>
      rw [if_neg (by rw [Reader.atEnd, hr]; exact Bool.false_ne_true)]
      refine (reads_eatBlank hc (u ++ v)).bind ?_
      have hne : es ≠ [] := fun heq => hdays (by rw [heq])
      have hhead := head_of_optional_weeks hv
      have hend := not_startsSeparator_of_weeks hv
      cases hu with
      | @on d u es hd hes =>
          have hentries : Reads (entries false) (u ++ v) ⟨es, hne⟩ v := reads_entries hes hhead hend
          exact (reads_introduction .on _).bind ((reads_eatBlank hd (u ++ v)).bind
            (hentries.bind ((reads_weeksAtLast hv).bind (.pure _ []))))
      | @parenthesized u es hes =>
          have hentries : Reads (entries true) (u ++ ')' :: v) ⟨es, hne⟩ v := reads_parenthesized hes v
          have htext : '(' :: u ++ [')'] ++ v = ['('] ++ (u ++ ')' :: v) := by simp
          rw [htext]
          exact (reads_introduction .parenthesis _).bind
            (hentries.bind ((reads_weeksAtLast hv).bind (.pure _ [])))

/-- What has been read as a phrase is one, and nothing is left. -/
theorem phrase_of_run {r r' : Reader} {b : Block} (h : phrase.run r = .ok (b, r')) :
    Grammar.Phrase r.rest b := by
  obtain ⟨_, r₁, hat, h⟩ := run_bind_eq_ok_iff.mp h
  obtain ⟨_, r₂, hblank, h⟩ := run_bind_eq_ok_iff.mp h
  obtain ⟨ts, r₃, hts, h⟩ := run_bind_eq_ok_iff.mp h
  obtain ⟨⟨days, weeks⟩, r₄, hrestrictions, h⟩ := run_bind_eq_ok_iff.mp h
  rw [run_get_bind] at h
  split at h
  · rename_i hend
    obtain ⟨rfl, rfl⟩ := run_pure_eq_ok_iff.mp h
    obtain ⟨_, rfl, h₁⟩ := sound_eatWord hat
    obtain ⟨_, ⟨c, rfl, hc⟩, h₂⟩ := sound_eatBlank hblank
    obtain ⟨u, hu, h₃⟩ := sound_times hts
    obtain ⟨_, ⟨v, w, rfl, hv, hw⟩, h₄⟩ := sound_restrictions hrestrictions
    have htext : r.rest = 'a' :: 't' :: c :: u ++ v ++ w := by
      rw [h₁, h₂, h₃, h₄, List.isEmpty_iff.mp hend]
      simp
    rw [htext]
    exact .mk hc hu hv hw
  · exact absurd h run_throw_ne_ok

theorem reads_phrase {text : List Char} {b : Block} (h : Grammar.Phrase text b) :
    Reads phrase text b [] := by
  obtain @⟨c, u, v, w, b, hc, hu, hv, hw⟩ := h
  have htext : 'a' :: 't' :: c :: u ++ v ++ w = "at".toList ++ c :: (u ++ (v ++ w)) := by simp
  have htimes : Reads times (u ++ (v ++ w)) ⟨b.times, b.times_ne⟩ (v ++ w) :=
    reads_times hu (not_startsSeparator_of_optional hv hw)
  have hrestrictions : Reads restrictions (v ++ w) (⟨b.days, b.days_ne⟩, b.weeks) [] :=
    reads_restrictions hv hw
  rw [htext]
  refine (reads_eatWord _ _).bind ((reads_eatBlank hc _).bind (htimes.bind (hrestrictions.bind
    (.get_bind fun r hr => ?_))))
  rw [if_pos (by rw [Reader.atEnd, hr]; rfl)]
  exact .pure b []

end Timetable.Phrase

namespace Timetable

/-- A phrase has one meaning. -/
theorem Grammar.Phrase.unique {text : List Char} {b b' : Block} (h : Grammar.Phrase text b)
    (h' : Grammar.Phrase text b') : b = b' := by
  obtain ⟨r, hrun, -⟩ := Phrase.reads_phrase h (Reader.ofText text) rfl
  obtain ⟨r', hrun', -⟩ := Phrase.reads_phrase h' (Reader.ofText text) rfl
  exact (Prod.mk.inj (Except.ok.inj (hrun.symm.trans hrun'))).1

/-- A text is read as a block exactly when it is a phrase that means the block. -/
theorem Block.ofPhrase_eq_ok_iff {text : String} {b : Block} :
    Block.ofPhrase text = .ok b ↔ Grammar.Phrase text.toList b := by
  rw [Block.ofPhrase, Phrase.read]
  split
  · rename_i hempty
    rw [List.isEmpty_iff.mp hempty]
    exact ⟨nofun, nofun⟩
  · constructor
    · intro h
      cases hrun : Phrase.phrase.run (Reader.ofText text.toList) with
      | error e =>
          rw [hrun] at h
          cases h
      | ok result =>
          rw [hrun] at h
          obtain rfl := Except.ok.inj h
          exact Phrase.phrase_of_run hrun
    · intro h
      obtain ⟨r', hrun, -⟩ := Phrase.reads_phrase h (Reader.ofText text.toList) rfl
      rw [hrun]
      rfl

end Timetable
