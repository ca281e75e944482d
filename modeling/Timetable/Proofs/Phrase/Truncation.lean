import Timetable.Proofs.Phrase.Conjunctions
import Timetable.Proofs.Phrase.CutItems
import Timetable.Proofs.Phrase.Rendering

/-! # Phrases that are cut off

A phrase of which only a beginning is left is read to the end or asked for, with one exception.  What is
left of the word `and` behind an item seems to be something else: a clause, or the end of a list in
parentheses (`Grammar.CutsConjunction`).  A phrase that is cut off anywhere else is asked for, from its times
(`Phrase.times_of_cut`) to its clauses (`Phrase.finishes_phrase`); what is left of `and` is a fault
(`Phrase.faults_phrase`).  Both together say which beginnings are asked for
(`Block.ofPhrase_prefix_iff`). -/

namespace Timetable

namespace Grammar

/-- The text is cut off within a space and the word `and`: behind its letter a or n, or, if a parenthesis
has been opened, behind the space. -/
def CutsConjunction (text q : List Char) : Prop :=
  ∃ x y c, text = x ++ " and".toList ++ y ∧ q = x ++ c ∧ c ∈ conjunctionBeginnings
    ∧ (c = " ".toList → '(' ∈ x)

namespace CutsConjunction

variable {text q : List Char}

theorem append_left (h : CutsConjunction text q) (u : List Char) :
    CutsConjunction (u ++ text) (u ++ q) := by
  obtain ⟨x, y, c, rfl, rfl, hc, hspace⟩ := h
  refine ⟨u ++ x, y, c, by simp only [List.append_assoc], by simp only [List.append_assoc], hc, fun h => ?_⟩
  exact List.mem_append_right u (hspace h)

theorem append_right (h : CutsConjunction text q) (v : List Char) : CutsConjunction (text ++ v) q := by
  obtain ⟨x, y, c, rfl, rfl, hc, hspace⟩ := h
  exact ⟨x, y ++ v, c, by simp only [List.append_assoc], rfl, hc, hspace⟩

end CutsConjunction

end Grammar

namespace Phrase

open Text Read Grammar

variable {q t : List Char} {d : Char}

/-! ### Where a text goes on -/

section

variable {α : Type} {p p' : Read α} {s : List Char}

theorem throws_of_not_atEnd {E : PhraseError → Prop} (hs : s ≠ []) (hp : Throws p' s E) : Throws (do
    let r ← get
    if r.atEnd then p else p') s E := by
  refine .get_bind fun r hr => ?_
  rwa [if_neg (by rw [Reader.atEnd, hr, List.isEmpty_iff]; exact hs)]

theorem finishes_of_not_atEnd (hs : s ≠ []) (hp : Finishes p' s) : Finishes (do
    let r ← get
    if r.atEnd then p else p') s := by
  rcases hp with ⟨a, hp⟩ | hp
  · refine .inl ⟨a, .get_bind fun r hr => ?_⟩
    rwa [if_neg (by rw [Reader.atEnd, hr, List.isEmpty_iff]; exact hs)]
  · exact .inr (throws_of_not_atEnd hs hp)

end

/-! ### Times -/

theorem ne_nil_of_times {u : List Char} {ts : List TimeOfDay} (hu : Times u ts) : ts ≠ [] := by
  cases hu with
  | everyHour => exact fullHours_ne
  | list hts => exact ne_nil_of_items hts

theorem run_times_of_digit {c : Char} {n : Nat} (hc : Digit c n) {r : Reader} (hr : r.rest = c :: q) :
    times.run r = (items time).run r := by
  have hdigit : digitFollows.run r = .ok (true, r) := by
    rw [digitFollows, run_get_bind, hr, List.head?_cons, Option.any_some, (digit_iff.mp hc).1]
    rfl
  rw [times, run_get_bind, if_neg (by rw [Reader.atEnd, hr]; exact Bool.false_ne_true),
    run_bind_of_ok hdigit, if_pos rfl]

theorem stops_times_nil : Stops times [] := by
  refine .get_bind fun r hr => ?_
  rw [if_pos (by rw [Reader.atEnd, hr]; rfl)]
  exact fun _ _ => ⟨_, rfl, rfl⟩

/-- Times that are cut off, but not within the word `and`, are taken up or asked for, or a space is left. -/
theorem times_of_cut {u : List Char} {ts : List TimeOfDay} (hu : Times u ts) (h : u = q ++ d :: t)
    (hcut : ¬ CutsConjunction u q) : Finishes times q ∨ ∃ ys, Reads times q ys [' '] := by
  rcases q with _ | ⟨c, q⟩
  · exact .inl (.inr stops_times_nil)
  cases hu with
  | everyHour =>
      have hword : everyHour = c :: q ++ d :: t := h
      obtain ⟨rfl, -⟩ := List.cons.inj h
      refine .inl (.inr (.get_bind fun r hr => ?_))
      rw [if_neg (by rw [Reader.atEnd, hr]; exact Bool.false_ne_true)]
      refine (reads_no_digitFollows rfl).bind_throws ?_
      rw [if_neg Bool.false_ne_true]
      exact stops_eatEntry (List.pairwise_singleton _ _) (List.mem_singleton.mpr (by rw [← hword]))
  | list hts =>
      obtain ⟨c', n, u', hu', hc⟩ := exists_digit_of_times hts
      obtain ⟨rfl, -⟩ := List.cons.inj (h.symm.trans hu')
      have hrun : ∀ r : Reader, r.rest = c :: q → times.run r = (items time).run r :=
        fun r hr => run_times_of_digit hc hr
      have hreads {ys s} (hys : Reads (items time) (c :: q) ys s) : Reads times (c :: q) ys s :=
        fun r hr => by rw [hrun r hr]; exact hys r hr
      rcases items_of_cut (F := fun _ => True) (fun hw _ => reads_time hw) stops_time (fun _ => trivial)
        (fun _ => trivial) hts h with (⟨ys, hys⟩ | hstops) | ⟨v, s, z, hq, hu, hs, ys, hys⟩
      · exact .inl (.inl ⟨ys, hreads hys⟩)
      · exact .inl (.inr fun r hr => by rw [hrun r hr]; exact hstops r hr)
      · have hspace : s = [' '] := by
          by_contra hne
          exact hcut ⟨v, z, s, hu, hq, hs, fun heq => absurd heq hne⟩
        exact .inr ⟨ys, hspace ▸ hreads hys⟩

/-! ### Weekdays and weeks -/

theorem items_entry_of_cut {u : List Char} {es : List Entry} (hu : Items WeekdayEntry u es)
    (h : u = q ++ d :: t) : Finishes (items entry) q ∨ ∃ v s z, q = v ++ s ∧ u = v ++ " and".toList ++ z
      ∧ s ∈ conjunctionBeginnings ∧ ∃ ys, Reads (items entry) q ys s := by
  refine items_of_cut (F := fun s => s.head? ≠ some 's') reads_entry stops_entry ?_ ?_ hu h
  · rintro w s (_ | _) <;> simp
  · intro s t hs hhead
    obtain ⟨s', rfl⟩ : ∃ s', s = 's' :: s' := List.head?_eq_some_iff.mp hhead
    nomatch hs

theorem expects_weeks {u : List Char} {p : Parity} (hu : Weeks u p) : Expects weeks u p :=
  expects_eatEntry (by decide) (mem_weekClauses_iff.mpr hu)

theorem finishes_weeksAtLast {w : List Char} {p : Option Parity} (hw : Optional Weeks w p)
    (h : w = q ++ d :: t) : Finishes weeksAtLast q := by
  rcases q with _ | ⟨e, q⟩
  · exact .inl ⟨none, reads_weeksAtLast .absent⟩
  refine finishes_of_not_atEnd (List.cons_ne_nil e q) ?_
  cases hw with
  | absent => cases h
  | present hc hu =>
      exact (expects_eatBlank hc).bind_finishes h fun _ h => .inr ((expects_weeks hu).stops h).bind

theorem not_startsSeparator_of_append {s v : List Char} (h : ¬ StartsSeparator (s ++ v)) :
    ¬ StartsSeparator s := by
  rintro (hcomma | hand)
  · exact h (.inl (by rw [List.head?_append, hcomma]; rfl))
  · exact h (.inr (hand.trans (List.prefix_append s v)))

section Restrictions

variable {β : Type} {f : { es : List Entry // es ≠ [] } → Option Parity → Read β}
  {u w : List Char} {es : List Entry} {p : Option Parity}

theorem finishes_on (hf : ∀ es p, Finishes (f es p) []) (hu : Items WeekdayEntry u es)
    (hw : Optional Weeks w p) (h : u ++ w = q ++ d :: t) (hcut : ¬ CutsConjunction (u ++ w) q) :
    Finishes (do
      let es ← entries false
      let p ← weeksAtLast
      f es p) q := by
  have hrest (es) : Finishes (weeksAtLast >>= f es) [] :=
    .bind (.inl ⟨none, reads_weeksAtLast .absent⟩) (hf es)
  rcases exists_of_append_eq_append_cons h with ⟨t', ht⟩ | ⟨q', rfl, h'⟩
  · rcases items_entry_of_cut hu ht with hfinishes | ⟨v, s, z, hq, hu', hs, ys, hys⟩
    · exact .bind (.bind hfinishes fun es => .inl ⟨es, .pure es []⟩) hrest
    · have hspace : s = [' '] := by
        by_contra hne
        exact hcut (.append_right ⟨v, z, s, hu', hq, hs, fun heq => absurd heq hne⟩ w)
      subst hspace
      have hweeks : Stops weeksAtLast [' '] := throws_of_not_atEnd (List.cons_ne_nil _ _)
        ((reads_eatBlank (by decide) []).bind_throws ((expects_weeks .even).stops rfl).bind)
      exact .inr ((hys.bind (.pure ys _)).bind_throws hweeks.bind)
  · have hhead : q'.head? ≠ some 's' := fun hs =>
      head_of_optional_weeks hw (by rw [h', List.head?_append, hs]; rfl)
    have hend : ¬ StartsSeparator q' :=
      not_startsSeparator_of_append (h' ▸ not_startsSeparator_of_weeks hw)
    have hentries : Reads (entries false) (u ++ q') ⟨es, ne_nil_of_items hu⟩ q' :=
      reads_entries hu hhead hend
    exact hentries.bind_finishes (.bind (finishes_weeksAtLast hw h') (hf _))

theorem finishes_parenthesized (hf : ∀ es p, Finishes (f es p) []) (hu : Items WeekdayEntry u es)
    (hw : Optional Weeks w p) (h : u ++ ')' :: w = q ++ d :: t)
    (hcut : ¬ ∃ x z s, u = x ++ " and".toList ++ z ∧ q = x ++ s ∧ s ∈ conjunctionBeginnings) :
    Finishes (do
      let es ← entries true
      let p ← weeksAtLast
      f es p) q := by
  have hclose : Stops (eatChar ')' "',', ' and' or ')'") [] := stops_eatChar_nil _ _
  rcases exists_of_append_eq_append_cons h with ⟨t', ht⟩ | ⟨q', rfl, h'⟩
  · rcases items_entry_of_cut hu ht with hfinishes | ⟨v, s, z, hq, hu', hs, -⟩
    · rcases hfinishes with ⟨ys, hys⟩ | hstops
      · exact .inr (hys.bind_throws hclose.bind).bind
      · exact .inr hstops.bind.bind
    · exact absurd ⟨v, z, s, hu', hq, hs⟩ hcut
  · rcases q' with _ | ⟨e, q'⟩
    · have hreads : Reads (items entry) (u ++ []) ⟨es, ne_nil_of_items hu⟩ [] :=
        reads_items_entry hu nofun (by simp [StartsSeparator])
      exact .inr (hreads.bind_throws hclose.bind).bind
    · obtain ⟨rfl, hw'⟩ := List.cons.inj h'
      have hentries : Reads (entries true) (u ++ ')' :: q') ⟨es, ne_nil_of_items hu⟩ q' :=
        reads_parenthesized hu q'
      exact hentries.bind_finishes (.bind (finishes_weeksAtLast hw hw') (hf _))

end Restrictions

theorem reads_restrictions_nil : Reads restrictions [] (⟨none, nofun⟩, none) [] :=
  .get_bind fun r hr => by
    rw [if_pos (by rw [Reader.atEnd, hr]; rfl)]
    exact .pure _ []

theorem expects_introduction {u : List Char} {i : Introduction} {expected : String}
    (hu : IntroductionWord u i) : Expects (eatEntry introductions expected) u i :=
  expects_eatEntry (by decide) (mem_introductions_iff.mpr hu)

theorem finishes_restrictions {v w : List Char} {days : Option (List Entry)} {p : Option Parity}
    (hv : Optional Days v days) (hw : Optional Weeks w p) (h : v ++ w = q ++ d :: t)
    (hcut : ¬ CutsConjunction (v ++ w) q) : Finishes restrictions q := by
  rcases q with _ | ⟨e, q⟩
  · exact .inl ⟨_, reads_restrictions_nil⟩
  refine finishes_of_not_atEnd (List.cons_ne_nil e q) ?_
  cases hv with
  | absent =>
      cases hw with
      | absent => cases h
      | present hc hu =>
          exact (expects_eatBlank hc).bind_finishes h fun _ h =>
            .inr ((expects_introduction (.weeks hu)).stops h).bind
  | @present c v es hc hdays =>
      refine (expects_eatBlank hc).bind_finishes h fun {q₁} hq h₁ => ?_
      rw [hq] at hcut
      cases hdays with
      | @on b u es hb hu =>
          refine (expects_introduction .on).bind_finishes h₁ fun {q₂} hq₁ h₂ => ?_
          refine (expects_eatBlank hb).bind_finishes h₂ fun {q₃} hq₂ h₃ => ?_
          refine finishes_on (fun _ _ => .inl ⟨_, .pure _ []⟩) hu hw h₃ fun hand => ?_
          rw [hq₁, hq₂] at hcut
          exact hcut (hand.append_left [c, 'o', 'n', b])
      | @parenthesized u es hu =>
          refine (expects_introduction .parenthesis).bind_finishes h₁ fun {q₂} hq₁ h₂ => ?_
          refine finishes_parenthesized (fun _ _ => .inl ⟨_, .pure _ []⟩) hu hw (by simpa using h₂) ?_
          rintro ⟨x, z, s, rfl, rfl, hs⟩
          rw [hq₁] at hcut
          exact hcut ⟨c :: '(' :: x, z ++ [')'] ++ w, s, by simp, rfl, hs, fun _ => by simp⟩

/-! ### Whole phrases -/

/-- The clauses of a phrase that is cut off are read to the end or asked for, unless it is cut within the
word `and`. -/
theorem finishes_clauses {β : Type} {u v w : List Char} {ts : List TimeOfDay} {days : Option (List Entry)}
    {p : Option Parity} {f : { ts : List TimeOfDay // ts ≠ [] } →
      { days : Option (List Entry) // days ≠ some [] } × Option Parity → Read β}
    (hf : ∀ ts x, Finishes (f ts x) []) (hu : Times u ts) (hv : Optional Days v days)
    (hw : Optional Weeks w p) (h : u ++ (v ++ w) = q ++ d :: t)
    (hcut : ¬ CutsConjunction (u ++ (v ++ w)) q) : Finishes (do
      let ts ← times
      let x ← restrictions
      f ts x) q := by
  rcases exists_of_append_eq_append_cons h with ⟨t', ht⟩ | ⟨q', rfl, h'⟩
  · rcases times_of_cut hu ht fun hand => hcut (hand.append_right _) with hfinishes | ⟨ys, hys⟩
    · exact .bind hfinishes fun ts => reads_restrictions_nil.bind_finishes (hf ts _)
    · refine hys.bind_finishes (.bind (finishes_of_not_atEnd (List.cons_ne_nil _ _) ?_) (hf ys))
      exact (reads_eatBlank (by decide) []).bind_finishes
        (.inr ((expects_introduction .on).stops rfl).bind)
  · have htimes : Reads times (u ++ q') ⟨ts, ne_nil_of_times hu⟩ q' :=
      reads_times hu (not_startsSeparator_of_append (h' ▸ not_startsSeparator_of_optional hv hw))
    refine htimes.bind_finishes (.bind (finishes_restrictions hv hw h' fun hand => ?_) (hf _))
    exact hcut (hand.append_left u)

/-- A phrase that is cut off is read to its end or asked for, unless it is cut within the word `and`. -/
theorem finishes_phrase {text : List Char} {b : Block} (hb : Grammar.Phrase text b)
    (h : text = q ++ d :: t) (hcut : ¬ CutsConjunction text q) : Finishes phrase q := by
  obtain @⟨c, u, v, w, b, hc, hu, hv, hw⟩ := hb
  rw [List.append_assoc] at h hcut
  refine (expects_eatWord "at".toList).bind_finishes h fun {q₁} hq h₁ => ?_
  refine (expects_eatBlank hc).bind_finishes h₁ fun {q₂} hq₁ h₂ => ?_
  rw [hq, hq₁] at hcut
  refine finishes_clauses ?_ hu hv hw h₂ fun hand => hcut (hand.append_left ['a', 't', c])
  rintro ts ⟨days, weeks⟩
  refine .inl ⟨⟨ts.1, days.1, weeks, ts.2, days.2⟩, .get_bind fun r hr => ?_⟩
  rw [if_pos (by rw [Reader.atEnd, hr]; rfl)]
  exact .pure _ []

/-- The letters that are left of the word `and` begin no clause. -/
theorem faults_clause {α β : Type} {table : List (List Char × α)} {expected : String} {f : α → Read β}
    {p : Read β} {c : List Char} (hc : c ∈ conjunctionBeginnings) (hspace : c ≠ " ".toList)
    (hno : ∀ u ∈ ["a".toList, "an".toList], ∀ row ∈ table, ¬ row.1 <+: u ∧ ¬ u <+: row.1) :
    Faults (do
      let r ← get
      if r.atEnd then
        p
      else
        eatBlank
        let x ← eatEntry table expected
        f x) c := by
  obtain ⟨u, rfl, hu⟩ : ∃ u, c = ' ' :: u ∧ u ∈ ["a".toList, "an".toList] := by
    rcases List.mem_cons.mp hc with rfl | hc
    · exact absurd rfl hspace
    · rcases List.mem_pair.mp hc with rfl | rfl
      exacts [⟨_, rfl, by decide⟩, ⟨_, rfl, by decide⟩]
  have hne : u ≠ [] := by
    rintro rfl
    exact absurd hu (by decide)
  exact throws_of_not_atEnd (List.cons_ne_nil _ _)
    ((reads_eatBlank (by decide) u).bind_throws (faults_eatEntry hne (hno u hu)).bind)

theorem faults_phrase_of_restrictions {b : Char} {u s : List Char} {ts : List TimeOfDay}
    (hb : isBlank b = true) (hts : Times u ts) (hend : ¬ StartsSeparator s)
    (hrestrictions : Faults restrictions s) : Faults phrase ('a' :: 't' :: b :: (u ++ s)) := by
  have htimes : Reads times (u ++ s) ⟨ts, ne_nil_of_times hts⟩ s := reads_times hts hend
  exact (reads_eatWord "at".toList _).bind_throws ((reads_eatBlank hb _).bind_throws
    (htimes.bind_throws hrestrictions.bind))

/-- What is left of the word `and` behind an item of a list is a fault. -/
theorem faults_phrase {parenthesized : Bool} {x c : List Char} (hx : ListSoFar parenthesized x)
    (hc : c ∈ conjunctionBeginnings) (hspace : c = " ".toList → parenthesized = true) :
    Faults phrase (x ++ c) := by
  have hend : ¬ StartsSeparator c := not_startsSeparator_of_mem_conjunctionBeginnings hc
  obtain ⟨v, rfl⟩ : ∃ v, c = ' ' :: v := by
    revert c
    simp [conjunctionBeginnings]
  cases hx with
  | @times b u ts hb hts =>
      have hrestrictions : Faults restrictions (' ' :: v) :=
        faults_clause hc (fun heq => Bool.false_ne_true (hspace heq)) (by decide)
      exact faults_phrase_of_restrictions hb (.list hts) hend hrestrictions
  | @on b e f u w ts es hb hts he hf hes =>
      have hentries : Reads (entries false) (w ++ ' ' :: v) ⟨es, ne_nil_of_items hes⟩ (' ' :: v) :=
        reads_entries hes (by simp) hend
      have hweeks : Faults weeksAtLast (' ' :: v) :=
        faults_clause hc (fun heq => Bool.false_ne_true (hspace heq)) (by decide)
      have hrestrictions : Faults restrictions (e :: 'o' :: 'n' :: f :: (w ++ ' ' :: v)) :=
        throws_of_not_atEnd (List.cons_ne_nil _ _) ((reads_eatBlank he _).bind_throws
          ((reads_introduction .on _).bind_throws ((reads_eatBlank hf _).bind_throws
            (hentries.bind_throws hweeks.bind))))
      simpa using faults_phrase_of_restrictions hb hts (not_startsSeparator_cons he (by simp)) hrestrictions
  | @parenthesized b e u w ts es hb hts he hes =>
      have hitems : Reads (items entry) (w ++ ' ' :: v) ⟨es, ne_nil_of_items hes⟩ (' ' :: v) :=
        reads_items_entry hes (by simp) hend
      have hclose : Faults (eatChar ')' "',', ' and' or ')'") (' ' :: v) := faults_eatChar (by decide) _ v
      have hrestrictions : Faults restrictions (e :: '(' :: (w ++ ' ' :: v)) :=
        throws_of_not_atEnd (List.cons_ne_nil _ _) ((reads_eatBlank he _).bind_throws
          ((reads_introduction .parenthesis _).bind_throws (hitems.bind_throws hclose.bind).bind))
      simpa using faults_phrase_of_restrictions hb hts (not_startsSeparator_cons he (by simp)) hrestrictions

end Phrase

/-- A beginning of a phrase is read as a block, or found to be too short, exactly if it is not cut off within
the word `and`; a fault is found in it exactly if it is. -/
theorem Block.ofPhrase_prefix_iff {text q : String} {b : Block} (h : Block.ofPhrase text = .ok b)
    (hq : q.toList <+: text.toList) (hne : q ≠ "") :
    ((∃ b', Block.ofPhrase q = .ok b') ∨ Block.ofPhrase q = .error .unexpectedEnd
      ↔ ¬ Grammar.CutsConjunction text.toList q.toList)
    ∧ ((∃ fault, Block.ofPhrase q = .error (.unexpectedText fault))
      ↔ Grammar.CutsConjunction text.toList q.toList) := by
  have htext := Block.phrase_of_ofPhrase h
  have hempty : ¬ q.toList.isEmpty = true := by rwa [List.isEmpty_iff, String.toList_eq_nil_iff]
  by_cases hcut : Grammar.CutsConjunction text.toList q.toList
  · have hfault : ∃ fault, Block.ofPhrase q = .error (.unexpectedText fault) := by
      obtain ⟨x, y, c, hx, hqx, hc, hspace⟩ := hcut
      obtain ⟨-, ⟨parenthesized, hlist⟩, -⟩ := htext.listSoFar
        (by rw [hx, List.append_assoc]; rfl : text.toList = x ++ ' ' :: 'a' :: 'n' :: 'd' :: y) (by decide)
      obtain ⟨e, hrun, fault, rfl⟩ := Phrase.faults_phrase hlist hc
        (fun heq => hlist.mem_parenthesis_iff.mp (hspace heq)) (Reader.ofText q.toList) hqx
      refine ⟨fault, ?_⟩
      rw [Block.ofPhrase, Phrase.read, if_neg hempty, hrun]
      rfl
    refine ⟨iff_of_false ?_ (not_not_intro hcut), iff_of_true hfault hcut⟩
    obtain ⟨fault, hfault⟩ := hfault
    simp [hfault]
  · have hfinishes : (∃ b', Block.ofPhrase q = .ok b') ∨ Block.ofPhrase q = .error .unexpectedEnd := by
      obtain ⟨s, hs⟩ := hq
      rcases s with _ | ⟨d, s⟩
      · rw [List.append_nil, String.toList_inj] at hs
        exact .inl ⟨b, hs ▸ h⟩
      rw [Block.ofPhrase, Phrase.read, if_neg hempty]
      rcases Phrase.finishes_phrase htext hs.symm hcut with ⟨b', hreads⟩ | hstops
      · obtain ⟨r, hrun, -⟩ := hreads (Reader.ofText q.toList) rfl
        exact .inl ⟨b', by rw [hrun]; rfl⟩
      · obtain ⟨e, hrun, rfl⟩ := hstops (Reader.ofText q.toList) rfl
        exact .inr (by rw [hrun]; rfl)
    refine ⟨iff_of_true hfinishes hcut, iff_of_false ?_ hcut⟩
    rcases hfinishes with ⟨b', h'⟩ | h' <;> simp [h']

/-- The phrase for 6 AM and 6 PM, cut off behind the letter n. -/
theorem Block.exists_fault_sixAndEighteen : "at 6 AM an".toList <+: "at 6 AM and 6 PM".toList
    ∧ ∃ fault, Block.ofPhrase "at 6 AM an" = .error (.unexpectedText fault) := by
  have hbegins : "at 6 AM an".toList <+: "at 6 AM and 6 PM".toList := by decide
  have hcut : Grammar.CutsConjunction "at 6 AM and 6 PM".toList "at 6 AM an".toList :=
    ⟨"at 6 AM".toList, " 6 PM".toList, " an".toList, rfl, rfl, by decide, by decide⟩
  exact ⟨hbegins, (Block.ofPhrase_prefix_iff rfl hbegins (by decide)).2.mpr hcut⟩

/-- The words that could follow an hour are named in the fault, but not the word that does: what is left of
the word `and` is taken for a clause. -/
theorem Block.ofPhrase_sixAndEighteen_cutOff : (∃ b, Block.ofPhrase "at 6 AM and 6 PM" = .ok b)
    ∧ "at 6 AM an".toList <+: "at 6 AM and 6 PM".toList ∧ "at 6 AM an" ≠ "at 6 AM and 6 PM"
    ∧ "at 6 AM an" ≠ "" ∧ Block.ofPhrase "at 6 AM an"
      = .error (.unexpectedText ⟨8, "'on', '(', 'in even weeks' or 'in odd weeks'", "an"⟩) :=
  ⟨⟨_, rfl⟩, by decide, by decide, by decide, by rfl⟩

end Timetable
