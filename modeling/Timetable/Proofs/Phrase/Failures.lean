import Timetable.Proofs.Phrase.Readers

/-! # How readers fail

A reader that fails throws an error, and nothing after it is done.  It asks for more text
(`Read.Stops`) or finds that the text goes on in a wrong way (`Read.Faults`).  A word of which only the
beginning is left is asked for (`Read.stops_eatEntry`); what no word begins with and what begins no word
is a fault (`Read.faults_eatEntry`).  A reader finds no fault in a text if it takes up all of it or asks for
more (`Read.Finishes`); so it is with what begins a text, if the reader expects a first part of it
(`Read.Expects`) and finds no fault in what begins the rest (`Read.Expects.bind_finishes`). -/

namespace Timetable

/-- A text that is cut within the first of two parts, or behind it. -/
theorem exists_of_append_eq_append_cons {u v q t : List Char} {d : Char} (h : u ++ v = q ++ d :: t) :
    (∃ t', u = q ++ d :: t') ∨ ∃ q', q = u ++ q' ∧ v = q' ++ d :: t := by
  rcases List.append_eq_append_iff.mp h with ⟨q', rfl, hv⟩ | ⟨t', rfl, ht⟩
  · exact .inr ⟨q', rfl, hv⟩
  · cases t' with
    | nil => exact .inr ⟨[], (List.append_nil _).symm ▸ (List.append_nil q).symm, ht.symm⟩
    | cons e t' =>
        obtain ⟨rfl, -⟩ := List.cons.inj ht
        exact .inl ⟨t', rfl⟩

namespace Read

open Text (isBlank)

variable {α β : Type}

/-- Wherever the rest of the text is `s`, the reader throws an error of the kind `E`. -/
def Throws (p : Read α) (s : List Char) (E : PhraseError → Prop) : Prop :=
  ∀ r : Reader, r.rest = s → ∃ e, p.run r = .error e ∧ E e

/-- Wherever the rest of the text is `s`, the reader asks for more. -/
def Stops (p : Read α) (s : List Char) : Prop :=
  Throws p s (· = .unexpectedEnd)

/-- Wherever the rest of the text is `s`, the reader finds a fault. -/
def Faults (p : Read α) (s : List Char) : Prop :=
  Throws p s fun e => ∃ fault, e = .unexpectedText fault

/-- Wherever the rest of the text is `s`, the reader takes up all of it or asks for more. -/
def Finishes (p : Read α) (s : List Char) : Prop :=
  (∃ a, Reads p s a []) ∨ Stops p s

section

variable {p : Read α} {f : α → Read β} {s s' : List Char} {a : α} {b : β} {E : PhraseError → Prop}

theorem run_bind_of_error {r : Reader} {e : PhraseError} (h : p.run r = .error e) :
    (p >>= f).run r = .error e := by
  rw [StateT.run_bind, h]
  rfl

theorem run_bind_of_ok {r r' : Reader} (h : p.run r = .ok (a, r')) : (p >>= f).run r = (f a).run r' := by
  rw [StateT.run_bind, h]
  rfl

theorem Throws.bind (h : Throws p s E) : Throws (p >>= f) s E := by
  intro r hr
  obtain ⟨e, hrun, he⟩ := h r hr
  exact ⟨e, run_bind_of_error hrun, he⟩

theorem Throws.not_reads (h : Throws p s E) : ¬ Reads p s a s' := by
  intro hreads
  obtain ⟨e, herror, -⟩ := h ⟨[], s⟩ rfl
  obtain ⟨r', hrun, -⟩ := hreads ⟨[], s⟩ rfl
  rw [herror] at hrun
  cases hrun

theorem Throws.get_bind {f : Reader → Read β} (h : ∀ r, r.rest = s → Throws (f r) s E) :
    Throws (get >>= f) s E :=
  fun r hr => h r hr r hr

theorem Reads.bind_throws (hp : Reads p s a s') (hf : Throws (f a) s' E) : Throws (p >>= f) s E := by
  intro r hr
  obtain ⟨r', hrun, hr'⟩ := hp r hr
  rw [run_bind_of_ok hrun]
  exact hf r' hr'

theorem Reads.bind_finishes (hp : Reads p s a s') (hf : Finishes (f a) s') : Finishes (p >>= f) s := by
  rcases hf with ⟨b, hf⟩ | hf
  · exact .inl ⟨b, hp.bind hf⟩
  · exact .inr (hp.bind_throws hf)

theorem Finishes.bind (hp : Finishes p s) (hf : ∀ a, Finishes (f a) []) : Finishes (p >>= f) s := by
  rcases hp with ⟨a, hp⟩ | hp
  · exact hp.bind_finishes (hf a)
  · exact .inr hp.bind

end

/-! ### Characters and words -/

theorem stops_eatWhere_nil (inClass : Char → Bool) (expected : String) :
    Stops (eatWhere inClass expected) [] := by
  refine .get_bind fun r hr => ?_
  rw [Reader.peek?, hr]
  exact fun _ _ => ⟨_, rfl, rfl⟩

theorem stops_eatBlank_nil : Stops eatBlank [] :=
  (stops_eatWhere_nil isBlank "whitespace").bind

theorem stops_eatChar_nil (c : Char) (expected : String) : Stops (eatChar c expected) [] := by
  refine .get_bind fun r hr => ?_
  rw [Reader.peek?, hr, if_neg (by simp), Reader.unexpected, Reader.stopsShort, hr]
  exact fun _ _ => ⟨_, rfl, rfl⟩

theorem faults_eatChar {c d : Char} (hne : d ≠ c) (expected : String) (s : List Char) :
    Faults (eatChar c expected) (d :: s) := by
  refine .get_bind fun r hr => ?_
  rw [Reader.peek?, hr, if_neg (by simpa using hne), Reader.unexpected, Reader.stopsShort, hr]
  exact fun _ _ => ⟨_, rfl, _, rfl⟩

/-- A word of the table is asked for when only its beginning is left. -/
theorem stops_eatEntry {table : List (List Char × α)} {expected : String} (hfree : PrefixFree table)
    {q t : List Char} {d : Char} {a : α} (hmem : (q ++ d :: t, a) ∈ table) :
    Stops (eatEntry table expected) q := by
  refine .get_bind fun r hr => ?_
  have hbegins : q <+: q ++ d :: t := List.prefix_append q _
  have hlength : q.length < (q ++ d :: t).length := by simp
  have hfind : table.find? (fun row => r.continuesWith row.1) = none := by
    refine List.find?_eq_none.mpr fun row hrow hcontinues => ?_
    rw [Reader.continuesWith, hr] at hcontinues
    have hrow' : row.1 <+: q := List.isPrefixOf_iff_prefix.mp hcontinues
    have heq : row = (q ++ d :: t, a) :=
      hfree.eq_of_prefix hrow hmem (hrow'.trans hbegins) (List.prefix_rfl)
    rw [heq] at hrow'
    exact absurd hrow'.length_le (by simp)
  have hshort : r.stopsShort (table.map (·.1)) = true := by
    rw [Reader.stopsShort, hr, Bool.or_eq_true, List.any_eq_true]
    refine .inr ⟨_, List.mem_map_of_mem hmem, ?_⟩
    rw [Bool.and_eq_true]
    exact ⟨decide_eq_true hlength, List.isPrefixOf_iff_prefix.mpr hbegins⟩
  rw [hfind, Reader.unexpected, hshort]
  exact fun _ _ => ⟨_, rfl, rfl⟩

/-- What no word of the table begins with, and what begins none of them, is a fault. -/
theorem faults_eatEntry {table : List (List Char × α)} {expected : String} {s : List Char} (hne : s ≠ [])
    (hno : ∀ row ∈ table, ¬ row.1 <+: s ∧ ¬ s <+: row.1) : Faults (eatEntry table expected) s := by
  refine .get_bind fun r hr => ?_
  have hfind : table.find? (fun row => r.continuesWith row.1) = none := by
    refine List.find?_eq_none.mpr fun row hrow hcontinues => ?_
    rw [Reader.continuesWith, hr] at hcontinues
    exact (hno row hrow).1 (List.isPrefixOf_iff_prefix.mp hcontinues)
  have hshort : r.stopsShort (table.map (·.1)) = false := by
    rw [Reader.stopsShort, hr, Bool.or_eq_false_iff, List.any_eq_false]
    refine ⟨List.isEmpty_eq_false_iff.mpr hne, fun word hword => ?_⟩
    obtain ⟨row, hrow, rfl⟩ := List.mem_map.mp hword
    rw [Bool.and_eq_true]
    exact fun h => (hno row hrow).2 (List.isPrefixOf_iff_prefix.mp h.2)
  rw [hfind, Reader.unexpected, hshort]
  exact fun _ _ => ⟨_, rfl, _, rfl⟩

/-! ### What is expected -/

/-- The reader expects the text `u`: it reads it, whatever follows, and asks for the rest where only a
beginning is left. -/
structure Expects (p : Read α) (u : List Char) (a : α) : Prop where
  reads (s : List Char) : Reads p (u ++ s) a s
  stops {q t : List Char} {d : Char} (h : u = q ++ d :: t) : Stops p q

theorem eq_nil_of_singleton_eq {c d : Char} {q t : List Char} (h : [c] = q ++ d :: t) : q = [] := by
  cases q with
  | nil => rfl
  | cons e q => simp at h

theorem expects_eatBlank {c : Char} (hc : isBlank c = true) : Expects eatBlank [c] () where
  reads := reads_eatBlank hc
  stops h := eq_nil_of_singleton_eq h ▸ stops_eatBlank_nil

theorem expects_eatChar (c : Char) (expected : String) : Expects (eatChar c expected) [c] () where
  reads := reads_eatChar c
  stops h := eq_nil_of_singleton_eq h ▸ stops_eatChar_nil c expected

theorem expects_eatEntry {table : List (List Char × α)} {expected : String} (hfree : PrefixFree table)
    {u : List Char} {a : α} (hmem : (u, a) ∈ table) : Expects (eatEntry table expected) u a where
  reads := reads_eatEntry hfree hmem
  stops h := stops_eatEntry hfree (h ▸ hmem)

theorem expects_eatWord (word : List Char) : Expects (eatWord word) word () :=
  expects_eatEntry (List.pairwise_singleton _ _) (List.mem_singleton.mpr rfl)

namespace Expects

variable {p : Read α} {f : α → Read β} {u w q t : List Char} {a : α} {d : Char}

theorem bind_stops (hp : Expects p u a) (h : u ++ w = q ++ d :: t)
    (hf : ∀ {q'}, w = q' ++ d :: t → Stops (f a) q') : Stops (p >>= f) q := by
  rcases exists_of_append_eq_append_cons h with ⟨t', ht⟩ | ⟨q', rfl, h'⟩
  · exact (hp.stops ht).bind
  · exact (hp.reads q').bind_throws (hf h')

theorem bind_finishes (hp : Expects p u a) (h : u ++ w = q ++ d :: t)
    (hf : ∀ {q'}, q = u ++ q' → w = q' ++ d :: t → Finishes (f a) q') : Finishes (p >>= f) q := by
  rcases exists_of_append_eq_append_cons h with ⟨t', ht⟩ | ⟨q', rfl, h'⟩
  · exact .inr (hp.stops ht).bind
  · exact (hp.reads q').bind_finishes (hf rfl h')

end Expects

end Read

end Timetable
