import Mathlib.Tactic
import Timetable.Phrase.Reader

/-! # What readers take up

Two statements about a reader and a relation between words and values.  `Read.Sound`: whenever it
succeeds, it has taken up a word that is related to its value.  `Read.Reads`: wherever the text goes on
in a certain way, it succeeds with a certain value and leaves a certain rest.  Both are composed along
`do` (`Read.run_bind_eq_ok_iff`, `Read.Reads.bind`) from the steps of a reader. -/

namespace Timetable.Read

open Text (isBlank)

variable {α β : Type}

/-- Whatever the reader gives, it has taken up a word for it. -/
def Sound (p : Read α) (G : List Char → α → Prop) : Prop :=
  ∀ ⦃r : Reader⦄ ⦃a : α⦄ ⦃r' : Reader⦄, p.run r = .ok (a, r') → ∃ w, G w a ∧ r.rest = w ++ r'.rest

/-- Wherever the rest of the text is `s`, the reader gives `a` and leaves `s'`. -/
def Reads (p : Read α) (s : List Char) (a : α) (s' : List Char) : Prop :=
  ∀ r : Reader, r.rest = s → ∃ r', p.run r = .ok (a, r') ∧ r'.rest = s'

theorem run_bind_eq_ok_iff {p : Read α} {f : α → Read β} {r r'' : Reader} {b : β} :
    (p >>= f).run r = .ok (b, r'') ↔
      ∃ a r', p.run r = .ok (a, r') ∧ (f a).run r' = .ok (b, r'') := by
  rw [StateT.run_bind]
  constructor
  · intro h
    cases hp : p.run r with
    | error e =>
        rw [hp] at h
        cases h
    | ok result =>
        obtain ⟨a, r'⟩ := result
        rw [hp] at h
        exact ⟨a, r', rfl, h⟩
  · rintro ⟨a, r', hp, hf⟩
    rw [hp]
    exact hf

theorem run_get_bind (f : Reader → Read β) (r : Reader) : (get >>= f).run r = (f r).run r :=
  rfl

theorem run_pure_eq_ok_iff {a b : α} {r r' : Reader} :
    (pure a : Read α).run r = .ok (b, r') ↔ b = a ∧ r' = r := by
  change Except.ok (a, r) = Except.ok (b, r') ↔ _
  simp [eq_comm]

theorem run_throw_ne_ok {e : PhraseError} {r r' : Reader} {a : α} :
    (throw e : Read α).run r ≠ .ok (a, r') :=
  nofun

namespace Reads

variable {p : Read α} {s s' s'' : List Char} {a : α} {b : β}

theorem bind {f : α → Read β} (hp : Reads p s a s') (hf : Reads (f a) s' b s'') :
    Reads (p >>= f) s b s'' := by
  intro r hr
  obtain ⟨r', hrun, hr'⟩ := hp r hr
  obtain ⟨r'', hrun', hr''⟩ := hf r' hr'
  exact ⟨r'', run_bind_eq_ok_iff.mpr ⟨a, r', hrun, hrun'⟩, hr''⟩

theorem unique (h : Reads p s a s') {a' : α} (h' : Reads p s a' s'') : a = a' ∧ s' = s'' := by
  obtain ⟨r, hrun, rfl⟩ := h ⟨[], s⟩ rfl
  obtain ⟨r', hrun', rfl⟩ := h' ⟨[], s⟩ rfl
  obtain ⟨rfl, rfl⟩ := Prod.mk.inj (Except.ok.inj (hrun.symm.trans hrun'))
  exact ⟨rfl, rfl⟩

theorem get_bind {f : Reader → Read β} (h : ∀ r, r.rest = s → Reads (f r) s b s'') :
    Reads (get >>= f) s b s'' :=
  fun r hr => h r hr r hr

theorem pure (a : α) (s : List Char) : Reads (Pure.pure a) s a s :=
  fun r hr => ⟨r, rfl, hr⟩

end Reads

/-! ### Characters -/

theorem rest_of_peek? {r : Reader} {c : Char} (h : r.peek? = some c) :
    r.rest = [c] ++ (r.advance 1).rest := by
  unfold Reader.peek? at h
  cases hrest : r.rest with
  | nil =>
      rw [hrest] at h
      cases h
  | cons d rest =>
      rw [hrest] at h
      obtain rfl : d = c := Option.some.inj h
      simp [Reader.advance, hrest]

theorem sound_eatWhere {inClass : Char → Bool} {expected : String} :
    Sound (eatWhere inClass expected) fun w c => w = [c] ∧ inClass c = true := by
  intro r c r' h
  rw [eatWhere, run_get_bind] at h
  split at h
  · exact absurd h run_throw_ne_ok
  · rename_i d hd
    split at h
    · rename_i hin
      obtain ⟨_, r₁, hset, hpure⟩ := run_bind_eq_ok_iff.mp h
      obtain ⟨rfl, rfl⟩ := run_pure_eq_ok_iff.mp hpure
      obtain rfl : r.advance 1 = r' := (Prod.mk.inj (Except.ok.inj hset)).2
      exact ⟨[c], ⟨rfl, hin⟩, rest_of_peek? hd⟩
    · exact absurd h run_throw_ne_ok

theorem reads_eatWhere {inClass : Char → Bool} {expected : String} {c : Char} (hc : inClass c = true)
    (s : List Char) : Reads (eatWhere inClass expected) (c :: s) c s := by
  intro r hr
  refine ⟨r.advance 1, ?_, by simp [Reader.advance, hr]⟩
  rw [eatWhere, run_get_bind]
  simp only [Reader.peek?, hr, List.head?_cons, hc, if_true]
  rfl

theorem sound_eatBlank : Sound eatBlank fun w _ => ∃ c, w = [c] ∧ isBlank c = true := by
  intro r a r' h
  obtain ⟨c, r₁, hc, hpure⟩ := run_bind_eq_ok_iff.mp h
  obtain ⟨-, rfl⟩ := run_pure_eq_ok_iff.mp hpure
  obtain ⟨w, hw, hrest⟩ := sound_eatWhere hc
  exact ⟨w, ⟨c, hw⟩, hrest⟩

theorem reads_eatBlank {c : Char} (hc : isBlank c = true) (s : List Char) :
    Reads eatBlank (c :: s) () s :=
  (reads_eatWhere hc s).bind (.pure () s)

theorem sound_eatChar {c : Char} {expected : String} :
    Sound (eatChar c expected) fun w _ => w = [c] := by
  intro r a r' h
  rw [eatChar, run_get_bind] at h
  split at h
  · rename_i hpeek
    obtain rfl : r.advance 1 = r' := (Prod.mk.inj (Except.ok.inj h)).2
    exact ⟨[c], rfl, rest_of_peek? hpeek⟩
  · exact absurd h run_throw_ne_ok

theorem reads_eatChar {expected : String} (c : Char) (s : List Char) :
    Reads (eatChar c expected) (c :: s) () s := by
  intro r hr
  refine ⟨r.advance 1, ?_, by simp [Reader.advance, hr]⟩
  rw [eatChar, run_get_bind, if_pos (by simp [Reader.peek?, hr])]
  rfl

/-! ### Words -/

/-- No word of the table begins another one of it, and no word stands in it twice. -/
def PrefixFree (table : List (List Char × α)) : Prop :=
  table.Pairwise fun row row' => ¬ row.1 <+: row'.1 ∧ ¬ row'.1 <+: row.1

instance (table : List (List Char × α)) : Decidable (PrefixFree table) :=
  inferInstanceAs (Decidable (table.Pairwise _))

theorem PrefixFree.eq_of_prefix {table : List (List Char × α)} (h : PrefixFree table)
    {row row' : List Char × α} (hrow : row ∈ table) (hrow' : row' ∈ table) {s : List Char}
    (hs : row.1 <+: s) (hs' : row'.1 <+: s) : row = row' := by
  by_contra hne
  have hnot : ¬ row.1 <+: row'.1 ∧ ¬ row'.1 <+: row.1 := by
    have hsymm : Std.Symm fun row row' : List Char × α => ¬ row.1 <+: row'.1 ∧ ¬ row'.1 <+: row.1 :=
      ⟨fun _ _ hno => hno.symm⟩
    exact h.forall hrow hrow' hne
  rcases List.prefix_or_prefix_of_prefix hs hs' with hle | hle
  · exact hnot.1 hle
  · exact hnot.2 hle

theorem sound_eatEntry {table : List (List Char × α)} {expected : String} :
    Sound (eatEntry table expected) fun w a => (w, a) ∈ table := by
  intro r a r' h
  rw [eatEntry, run_get_bind] at h
  split at h
  · rename_i word value hfind
    obtain ⟨_, r₁, hset, hpure⟩ := run_bind_eq_ok_iff.mp h
    obtain ⟨rfl, rfl⟩ := run_pure_eq_ok_iff.mp hpure
    obtain rfl : r.advance word.length = r' := (Prod.mk.inj (Except.ok.inj hset)).2
    refine ⟨word, List.mem_of_find?_eq_some hfind, ?_⟩
    have hword : r.continuesWith word = true := by simpa using List.find?_some hfind
    obtain ⟨s, hs⟩ := List.isPrefixOf_iff_prefix.mp hword
    simp [Reader.advance, ← hs]
  · exact absurd h run_throw_ne_ok

theorem PrefixFree.find?_append {table : List (List Char × α)} (h : PrefixFree table) {w : List Char}
    {a : α} (hmem : (w, a) ∈ table) (s : List Char) :
    table.find? (fun row => row.1.isPrefixOf (w ++ s)) = some (w, a) := by
  have hw : w.isPrefixOf (w ++ s) = true := List.isPrefixOf_iff_prefix.mpr (List.prefix_append w s)
  cases hfound : table.find? fun row => row.1.isPrefixOf (w ++ s) with
  | none => exact absurd hw (List.find?_eq_none.mp hfound (w, a) hmem)
  | some row =>
      have hprefix : row.1.isPrefixOf (w ++ s) = true := by simpa using List.find?_some hfound
      rw [h.eq_of_prefix (List.mem_of_find?_eq_some hfound) hmem
        (List.isPrefixOf_iff_prefix.mp hprefix) (List.isPrefixOf_iff_prefix.mp hw)]

theorem reads_eatEntry {table : List (List Char × α)} {expected : String} (hfree : PrefixFree table)
    {w : List Char} {a : α} (hmem : (w, a) ∈ table) (s : List Char) :
    Reads (eatEntry table expected) (w ++ s) a s := by
  intro r hr
  refine ⟨r.advance w.length, ?_, by simp [Reader.advance, hr]⟩
  rw [eatEntry, run_get_bind]
  simp only [Reader.continuesWith, hr, hfree.find?_append hmem s]
  rfl

theorem sound_eatWord {word : List Char} : Sound (eatWord word) fun w _ => w = word := by
  intro r a r' h
  obtain ⟨w, hw, hrest⟩ := sound_eatEntry h
  exact ⟨w, (Prod.mk.inj (List.mem_singleton.mp hw)).1, hrest⟩

theorem reads_eatWord (word s : List Char) : Reads (eatWord word) (word ++ s) () s :=
  reads_eatEntry (List.pairwise_singleton _ _) List.mem_cons_self s

end Timetable.Read
