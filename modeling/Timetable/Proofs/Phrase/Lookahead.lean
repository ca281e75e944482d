import Timetable.Proofs.Phrase.Failures

/-! # How far readers look ahead

What a reader does is decided by what it takes up and by a few characters behind that, no more than the
longest word has.  Where it takes up a word, it does so wherever the text goes on alike, and also where the
text ends earlier (`Read.Takes`); where it finds a fault, it finds the same one wherever the text goes on
alike, and none in what stands before it (`Read.FaultsBehind`).  A reader of which both hold is `Read.Located`.
The steps of reading are, and so are readers composed of such ones along `do` (`Read.Located.bind`) or by a
choice that the next characters decide (`Read.Located.ite_head`, `Read.Located.ite_word`). -/

namespace Timetable.Read

open Text (isBlank)

/-- The length of the longest word that a reader looks for. -/
def lookahead : Nat := 13

/-! ### Texts that go on alike -/

section Texts

variable {s s' t w : List Char} {n : Nat}

theorem take_append_mono (hs : s'.take n <+: s) : (w ++ s').take n <+: w ++ s := by
  rw [List.take_append]
  by_cases hn : n ≤ w.length
  · rw [Nat.sub_eq_zero_of_le hn, List.take_zero, List.append_nil]
    exact (List.take_prefix n w).trans (List.prefix_append w s)
  · rw [List.take_of_length_le (Nat.le_of_not_le hn), List.prefix_append_right_inj]
    exact (List.take_prefix_take_left (Nat.sub_le n w.length)).trans hs

theorem prefix_of_take_eq (hs : s'.take n = s.take n) : s'.take n <+: s :=
  hs ▸ List.take_prefix n s

theorem eq_of_take_eq (hs : s'.take n = s.take n) (hlength : s'.length < n) : s' = s := by
  have hlength' : s.length < n := by
    have heq := congrArg List.length hs
    rw [List.length_take, List.length_take] at heq
    omega
  rwa [List.take_of_length_le hlength.le, List.take_of_length_le hlength'.le] at hs

theorem head?_of_take_eq (hs : s'.take lookahead = s.take lookahead) : s'.head? = s.head? := by
  have heq := congrArg List.head? hs
  rwa [List.head?_take, List.head?_take, if_neg (by decide), if_neg (by decide)] at heq

/-- Whether `Q` holds of a text is decided by its first characters, at most `n` of them. -/
structure DecidedBy (n : Nat) (Q : List Char → Prop) : Prop where
  take {s : List Char} : Q s → Q (s.take n)
  append {s : List Char} (t : List Char) : Q s → Q (s ++ t)

namespace DecidedBy

variable {Q : List Char → Prop}

theorem mono (hQ : DecidedBy n Q) (h : Q s) (hst : s <+: t) : Q t := by
  obtain ⟨t, rfl⟩ := hst
  exact hQ.append t h

theorem of_take (hQ : DecidedBy n Q) (hn : n ≤ lookahead) (hs : s'.take lookahead <+: s)
    (h : Q (w ++ s')) : Q (w ++ s) :=
  hQ.mono (hQ.take h) ((List.take_prefix_take_left hn).trans (take_append_mono hs))

theorem append_congr (hQ : DecidedBy n Q) (hn : n ≤ w.length) (h : Q (w ++ s)) (t : List Char) :
    Q (w ++ t) := by
  have hw := hQ.take h
  rw [List.take_append_of_le_length hn] at hw
  exact hQ.mono hw ((List.take_prefix n w).trans (List.prefix_append w t))

end DecidedBy

/-- What depends on the next character, and asks for one. -/
theorem decidedBy_head {Q : Option Char → Prop} (hQ : ¬ Q none) : DecidedBy 1 fun s => Q s.head? where
  take {s} h := by
    cases s with
    | nil => exact absurd h hQ
    | cons c s => exact h
  append {s} t h := by
    cases s with
    | nil => exact absurd h hQ
    | cons c s => exact h

theorem decidedBy_char (c : Char) : DecidedBy 1 fun s => s.head? = some c :=
  decidedBy_head (Q := (· = some c)) nofun

theorem decidedBy_class (inClass : Char → Bool) : DecidedBy 1 fun s => s.head?.any inClass = true :=
  decidedBy_head (Q := (·.any inClass = true)) Bool.false_ne_true

theorem decidedBy_word (u : List Char) : DecidedBy u.length fun s => u.isPrefixOf s = true where
  take h := by
    rw [List.isPrefixOf_iff_prefix] at h ⊢
    exact List.prefix_take_iff.mpr ⟨h, le_rfl⟩
  append t h := by
    rw [List.isPrefixOf_iff_prefix] at h ⊢
    exact h.trans (List.prefix_append _ t)

end Texts

/-! ### What is decided by a few characters -/

variable {α β : Type} {p : Read α} {f : α → Read β} {r : Reader} {w u s : List Char} {a : α} {b : β}
  {expected : String}

/-- The reader takes up `w` and gives `a` where the text goes on like `s`, as far as a reader looks ahead,
or ends before it does not. -/
def Takes (p : Read α) (w s : List Char) (a : α) : Prop :=
  ∀ passed s', s'.take lookahead <+: s → p.run ⟨passed, w ++ s'⟩ = .ok (a, ⟨w.reverse ++ passed, s'⟩)

/-- In this text the reader finds no fault, and if it succeeds, nothing is left. -/
structure Exhausts (p : Read α) (w : List Char) : Prop where
  rest {r r' : Reader} {a : α} : r.rest = w → p.run r = .ok (a, r') → r'.rest = []
  no_fault {r : Reader} (fault : SyntaxFault) : r.rest = w → p.run r ≠ .error (.unexpectedText fault)

/-- Behind `w` the reader finds a fault, the same where the text goes on like `s` as far as a reader looks
ahead; it finds none if the text ends there. -/
structure FaultsBehind (p : Read α) (w s : List Char) (expected : String) : Prop where
  ne_nil : s ≠ []
  run (passed : List Char) {s' : List Char} : s'.take lookahead = s.take lookahead →
    p.run ⟨passed, w ++ s'⟩ = .error ((⟨w.reverse ++ passed, s'⟩ : Reader).fault expected)
  exhausts : Exhausts p w

/-- What the reader takes up and where it finds a fault is decided by a few characters. -/
structure Located (p : Read α) : Prop where
  takes {r r' : Reader} {a : α} : p.run r = .ok (a, r') →
    ∃ w, r.rest = w ++ r'.rest ∧ Takes p w r'.rest a
  faults {r : Reader} {fault : SyntaxFault} : p.run r = .error (.unexpectedText fault) →
    ∃ w s expected, r.rest = w ++ s ∧ FaultsBehind p w s expected
  nil : Exhausts p []

/-- The reader takes up at least `n` characters. -/
def Consumes (n : Nat) (p : Read α) : Prop :=
  Sound p fun u _ => n ≤ u.length

theorem run_bind_eq_error_iff {e : PhraseError} : (p >>= f).run r = .error e ↔
    p.run r = .error e ∨ ∃ a r', p.run r = .ok (a, r') ∧ (f a).run r' = .error e := by
  rw [StateT.run_bind]
  cases hp : p.run r with
  | error e' =>
      change Except.error e' = .error e ↔ _
      simp
  | ok result =>
      obtain ⟨a, r'⟩ := result
      change (f a).run r' = .error e ↔ _
      simp

theorem run_bind_congr {g : α → Read β} (h : ∀ a r', p.run r = .ok (a, r') → (f a).run r' = (g a).run r') :
    (p >>= f).run r = (p >>= g).run r := by
  cases hp : p.run r with
  | error e => rw [run_bind_of_error hp, run_bind_of_error hp]
  | ok result => rw [run_bind_of_ok hp, run_bind_of_ok hp, h _ _ hp]

theorem position_eq_of_fault_eq {r r' : Reader} {expected expected' : String}
    (h : r.fault expected = r'.fault expected') : r.position = r'.position := by
  have heq := congrArg SyntaxFault.position (PhraseError.unexpectedText.inj h)
  exact Int.ofNat.inj heq

theorem Takes.run_self (h : Takes p w s a) (passed : List Char) :
    p.run ⟨passed, w ++ s⟩ = .ok (a, ⟨w.reverse ++ passed, s⟩) :=
  h passed s (List.take_prefix _ _)

theorem Takes.length_le {n : Nat} (h : Takes p w s a) (hp : Consumes n p) : n ≤ w.length := by
  obtain ⟨u, hu, heq⟩ := hp (h.run_self [])
  rwa [List.append_cancel_right heq]

namespace Exhausts

theorem of_stops (h : Stops p w) : Exhausts p w where
  rest hr hrun := by
    obtain ⟨e, he, -⟩ := h _ hr
    rw [he] at hrun
    cases hrun
  no_fault fault hr := by
    obtain ⟨e, he, rfl⟩ := h _ hr
    rw [he]
    exact nofun

theorem bind (hp : Exhausts p w) (hf : ∀ a, Exhausts (f a) []) : Exhausts (p >>= f) w where
  rest hr hrun := by
    obtain ⟨a, r', hrun, hrun'⟩ := run_bind_eq_ok_iff.mp hrun
    exact (hf a).rest (hp.rest hr hrun) hrun'
  no_fault fault hr hrun := by
    rcases run_bind_eq_error_iff.mp hrun with hrun | ⟨a, r', hrun, hrun'⟩
    · exact hp.no_fault fault hr hrun
    · exact (hf a).no_fault fault (hp.rest hr hrun) hrun'

/-- The run of one reader on a text is that of another one on what is left of it. -/
theorem of_run {q : Read α} (hrun : ∀ passed, ∃ passed',
    q.run ⟨passed, u ++ w⟩ = p.run ⟨passed', w⟩) (hp : Exhausts p w) : Exhausts q (u ++ w) where
  rest {r} _ _ hr h := by
    obtain ⟨passed', heq⟩ := hrun r.passed
    rw [← hr] at heq
    exact hp.rest rfl (heq.symm.trans h)
  no_fault {r} fault hr h := by
    obtain ⟨passed', heq⟩ := hrun r.passed
    rw [← hr] at heq
    exact hp.no_fault fault rfl (heq.symm.trans h)

theorem of_choice {Q : List Char → Prop} [DecidablePred Q] {p q p' : Read α}
    (h : (if Q w then p else q) = p') (hp : Exhausts p' w) :
    Exhausts (get >>= fun r => if Q r.rest then p else q) w where
  rest hr hrun := by
    rw [run_get_bind, hr, h] at hrun
    exact hp.rest hr hrun
  no_fault fault hr hrun := by
    rw [run_get_bind, hr, h] at hrun
    exact hp.no_fault fault hr hrun

end Exhausts

theorem advance_append (passed w s : List Char) :
    (⟨passed, w ++ s⟩ : Reader).advance w.length = ⟨w.reverse ++ passed, s⟩ := by
  simp [Reader.advance]

theorem run_eatWhere (inClass : Char → Bool) (expected : String) (r : Reader) :
    (eatWhere inClass expected).run r = match r.rest.head? with
      | none => .error .unexpectedEnd
      | some c => if inClass c then .ok (c, r.advance 1) else .error (r.fault expected) := by
  rw [eatWhere, run_get_bind, Reader.peek?]
  cases r.rest.head? with
  | none => rfl
  | some c =>
      by_cases hc : inClass c = true
      · simp only [hc, if_true]
        rfl
      · simp only [hc]
        rfl

theorem run_eatChar (c : Char) (expected : String) (r : Reader) :
    (eatChar c expected).run r = if r.rest.head? = some c then .ok ((), r.advance 1)
      else .error (r.unexpected expected []) := by
  rw [eatChar, run_get_bind, Reader.peek?]
  split <;> rfl

theorem run_eatEntry (table : List (List Char × α)) (expected : String) (r : Reader) :
    (eatEntry table expected).run r = match table.find? fun row => row.1.isPrefixOf r.rest with
      | some (word, value) => .ok (value, r.advance word.length)
      | none => .error (r.unexpected expected (table.map (·.1))) := by
  rw [eatEntry, run_get_bind]
  simp only [Reader.continuesWith]
  cases table.find? fun row => row.1.isPrefixOf r.rest <;> rfl

/-- Whether words are cut off is seen within the characters that a reader looks ahead. -/
theorem stopsShort_congr {words : List (List Char)} (hwords : ∀ word ∈ words, word.length ≤ lookahead)
    {r r' : Reader} (h : r'.rest.take lookahead = r.rest.take lookahead) :
    r'.stopsShort words = r.stopsShort words := by
  by_cases hlength : r'.rest.length < lookahead
  · rw [Reader.stopsShort, Reader.stopsShort, eq_of_take_eq h hlength]
  · have hlength' : ¬ r.rest.length < lookahead := fun hlt =>
      hlength (by rwa [← eq_of_take_eq h.symm hlt])
    have hlong {r : Reader} (hr : ¬ r.rest.length < lookahead) : r.stopsShort words = false := by
      unfold Reader.stopsShort
      rw [Bool.or_eq_false_iff, List.any_eq_false, List.isEmpty_eq_false_iff]
      refine ⟨fun hnil => hr (by rw [hnil]; decide), fun word hword => ?_⟩
      have := hwords word hword
      rw [Bool.and_eq_true, decide_eq_true_iff]
      omega
    rw [hlong hlength, hlong hlength']

namespace Located

theorem pure (a : α) : Located (Pure.pure a : Read α) where
  takes h := by
    obtain ⟨rfl, rfl⟩ := run_pure_eq_ok_iff.mp h
    exact ⟨[], rfl, fun _ _ _ => rfl⟩
  faults h := nomatch h
  nil := {
    rest := fun hr h => by
      obtain ⟨rfl, rfl⟩ := run_pure_eq_ok_iff.mp h
      exact hr
    no_fault := nofun }

/-- An error that is no fault is none of the reader's place. -/
theorem of_fails (h : ∀ r, ∃ e, p.run r = .error e ∧ ∀ fault, e ≠ .unexpectedText fault) : Located p := by
  have hok {r r' : Reader} {a : α} : p.run r ≠ .ok (a, r') := by
    obtain ⟨e, he, -⟩ := h r
    rw [he]
    exact nofun
  have hfault {r : Reader} {fault : SyntaxFault} : p.run r ≠ .error (.unexpectedText fault) := by
    obtain ⟨e, he, hno⟩ := h r
    rw [he]
    exact fun heq => hno fault (Except.error.inj heq)
  exact ⟨fun hrun => absurd hrun hok, fun hrun => absurd hrun hfault,
    fun _ hrun => absurd hrun hok, fun fault _ => hfault⟩

theorem throw {e : PhraseError} (he : ∀ fault, e ≠ .unexpectedText fault) :
    Located (MonadExcept.throw e : Read α) :=
  .of_fails fun _ => ⟨e, rfl, he⟩

theorem bind (hp : Located p) (hf : ∀ a, Located (f a)) : Located (p >>= f) where
  takes h := by
    obtain ⟨a, r₁, hrun, hrun'⟩ := run_bind_eq_ok_iff.mp h
    obtain ⟨w, hw, htakes⟩ := hp.takes hrun
    obtain ⟨w', hw', htakes'⟩ := (hf a).takes hrun'
    refine ⟨w ++ w', by rw [hw, hw', List.append_assoc], fun passed s' hs' => ?_⟩
    have hs : (w' ++ s').take lookahead <+: r₁.rest := hw' ▸ take_append_mono hs'
    rw [List.append_assoc, run_bind_of_ok (htakes passed (w' ++ s') hs), htakes' _ s' hs']
    simp
  faults h := by
    rcases run_bind_eq_error_iff.mp h with hrun | ⟨a, r₁, hrun, hrun'⟩
    · obtain ⟨w, s, expected, hw, hfault⟩ := hp.faults hrun
      refine ⟨w, s, expected, hw, hfault.ne_nil, fun passed s' hs' => ?_, ?_⟩
      · exact run_bind_of_error (hfault.run passed hs')
      · exact hfault.exhausts.bind fun a => (hf a).nil
    · obtain ⟨w, hw, htakes⟩ := hp.takes hrun
      obtain ⟨w', s, expected, hw', hfault⟩ := (hf a).faults hrun'
      rw [hw'] at htakes
      refine ⟨w ++ w', s, expected, by rw [hw, hw', List.append_assoc], hfault.ne_nil,
        fun passed s' hs' => ?_, ?_⟩
      · have hs := take_append_mono (w := w') (prefix_of_take_eq hs')
        rw [List.append_assoc, run_bind_of_ok (htakes passed (w' ++ s') hs), hfault.run _ hs']
        simp
      · refine .of_run (fun passed => ⟨w.reverse ++ passed, ?_⟩) hfault.exhausts
        exact run_bind_of_ok (htakes passed w' ((List.take_prefix _ _).trans (List.prefix_append w' s)))
  nil := hp.nil.bind fun a => (hf a).nil

/-- Where the reader reads a word, the characters of it have been passed. -/
theorem run_of_reads (hp : Located p) (h : Reads p (w ++ s) a s) (passed : List Char) :
    p.run ⟨passed, w ++ s⟩ = .ok (a, ⟨w.reverse ++ passed, s⟩) := by
  obtain ⟨r', hrun, hr'⟩ := h ⟨passed, w ++ s⟩ rfl
  obtain ⟨u, hu, htakes⟩ := hp.takes hrun
  rw [hr'] at hu htakes
  obtain rfl : w = u := List.append_cancel_right hu
  exact htakes.run_self passed

/-! ### Steps of reading -/

theorem eatWhere (inClass : Char → Bool) (expected : String) :
    Located (Read.eatWhere inClass expected) where
  takes h := by
    obtain ⟨_, ⟨rfl, hc⟩, hw⟩ := sound_eatWhere h
    refine ⟨_, hw, fun passed s' _ => ?_⟩
    rw [run_eatWhere]
    simp only [List.cons_append, List.head?_cons, hc, if_true]
    exact congrArg _ (congrArg _ (advance_append passed [_] s'))
  faults {r fault} h := by
    rw [run_eatWhere] at h
    cases hhead : r.rest.head? with
    | none =>
        rw [hhead] at h
        cases h
    | some c =>
        rw [hhead] at h
        by_cases hc : inClass c = true
        · simp only [hc, if_true, reduceCtorEq] at h
        · refine ⟨[], r.rest, expected, rfl, fun hnil => ?_, fun passed s' hs' => ?_, ?_⟩
          · rw [hnil] at hhead
            cases hhead
          · rw [run_eatWhere, List.nil_append, head?_of_take_eq hs', hhead]
            simp only [hc]
            rfl
          · exact .of_stops (stops_eatWhere_nil inClass expected)
  nil := .of_stops (stops_eatWhere_nil inClass expected)

theorem eatBlank : Located eatBlank :=
  (eatWhere isBlank "whitespace").bind fun _ => .pure ()

theorem eatChar (c : Char) (expected : String) : Located (eatChar c expected) where
  takes h := by
    obtain ⟨_, rfl, hw⟩ := sound_eatChar h
    refine ⟨_, hw, fun passed s' _ => ?_⟩
    rw [run_eatChar, if_pos (by rfl)]
    exact congrArg _ (congrArg _ (advance_append passed [c] s'))
  faults {r fault} h := by
    rw [run_eatChar] at h
    by_cases hhead : r.rest.head? = some c
    · rw [if_pos hhead] at h
      cases h
    · rw [if_neg hhead, Reader.unexpected] at h
      by_cases hshort : r.stopsShort [] = true
      · rw [if_pos hshort] at h
        cases h
      · refine ⟨[], r.rest, expected, rfl, fun hnil => ?_, fun passed s' hs' => ?_, ?_⟩
        · exact hshort (by rw [Reader.stopsShort, hnil]; rfl)
        · have hshort' : (⟨passed, s'⟩ : Reader).stopsShort [] = r.stopsShort [] :=
            stopsShort_congr (by simp) hs'
          rw [run_eatChar, List.nil_append, if_neg (by rwa [head?_of_take_eq hs']), Reader.unexpected,
            hshort', if_neg hshort]
          rfl
        · exact .of_stops (stops_eatChar_nil c expected)
  nil := .of_stops (stops_eatChar_nil c expected)

theorem eatEntry {table : List (List Char × α)} (expected : String) (hfree : PrefixFree table)
    (hwords : ∀ row ∈ table, row.1 ≠ [] ∧ row.1.length ≤ lookahead) (hne : table ≠ []) :
    Located (eatEntry table expected) := by
  have hstops : Stops (Read.eatEntry table expected) [] := by
    obtain ⟨⟨w, a⟩, hmem⟩ := List.exists_mem_of_ne_nil table hne
    obtain ⟨c, t, rfl⟩ := List.exists_cons_of_ne_nil (hwords _ hmem).1
    exact stops_eatEntry hfree hmem
  refine ⟨fun h => ?_, fun {r fault} h => ?_, .of_stops hstops⟩
  · obtain ⟨w, hmem, hw⟩ := sound_eatEntry h
    refine ⟨w, hw, fun passed s' _ => ?_⟩
    rw [run_eatEntry]
    simp only [hfree.find?_append hmem s']
    exact congrArg _ (congrArg _ (advance_append passed w s'))
  · rw [run_eatEntry] at h
    cases hfind : table.find? fun row => row.1.isPrefixOf r.rest with
    | some row =>
        simp only [hfind, reduceCtorEq] at h
    | none =>
        simp only [hfind, Reader.unexpected] at h
        by_cases hshort : r.stopsShort (table.map (·.1)) = true
        · simp only [hshort, if_true, Except.error.injEq, reduceCtorEq] at h
        · refine ⟨[], r.rest, expected, rfl, fun hnil => ?_, fun passed s' hs' => ?_, .of_stops hstops⟩
          · exact hshort (by rw [Reader.stopsShort, hnil]; rfl)
          · have hfind' : table.find? (fun row => row.1.isPrefixOf s') = none := by
              refine List.find?_eq_none.mpr fun row hrow hprefix => ?_
              refine List.find?_eq_none.mp hfind row hrow ?_
              exact (decidedBy_word row.1).of_take (hwords row hrow).2 (w := [])
                (prefix_of_take_eq hs') hprefix
            have hshort' : (⟨passed, s'⟩ : Reader).stopsShort (table.map (·.1))
                = r.stopsShort (table.map (·.1)) := by
              refine stopsShort_congr (fun word hword => ?_) hs'
              obtain ⟨row, hrow, rfl⟩ := List.mem_map.mp hword
              exact (hwords row hrow).2
            rw [run_eatEntry, List.nil_append]
            simp only [hfind', Reader.unexpected, hshort', hshort]
            rfl

theorem eatWord {word : List Char} (hne : word ≠ []) (hlength : word.length ≤ lookahead) :
    Located (eatWord word) :=
  eatEntry _ (List.pairwise_singleton _ _) (by simp [hne, hlength]) (List.cons_ne_nil _ _)

/-- A fault that the next character decides. -/
theorem fault_if_head {Q : List Char → Prop} [DecidablePred Q] (hQ : DecidedBy 1 Q) (hnil : ¬ Q [])
    (expected : String) (a : α) : Located (get >>= fun r =>
      if Q r.rest then MonadExcept.throw (r.fault expected) else Pure.pure a) := by
  have hexhausts : Exhausts (get >>= fun r => if Q r.rest then MonadExcept.throw (r.fault expected)
      else (Pure.pure a : Read α)) [] := by
    refine ⟨fun {r r' a'} hr h => ?_, fun {r} fault hr h => ?_⟩
    · rw [run_get_bind, if_neg (hr ▸ hnil)] at h
      exact (Located.pure a).nil.rest hr h
    · rw [run_get_bind, if_neg (hr ▸ hnil)] at h
      exact (Located.pure a).nil.no_fault fault hr h
  refine ⟨fun {r r' a'} h => ?_, fun {r fault} h => ?_, hexhausts⟩
  · rw [run_get_bind] at h
    by_cases hr : Q r.rest
    · rw [if_pos hr] at h
      exact absurd h run_throw_ne_ok
    · rw [if_neg hr] at h
      obtain ⟨rfl, rfl⟩ := run_pure_eq_ok_iff.mp h
      refine ⟨[], rfl, fun passed s' hs' => ?_⟩
      rw [run_get_bind, if_neg fun hs => hr (hQ.of_take (by decide) (w := []) hs' hs)]
      rfl
  · rw [run_get_bind] at h
    by_cases hr : Q r.rest
    · refine ⟨[], r.rest, expected, rfl, fun heq => hnil (heq ▸ hr), fun passed s' hs' => ?_, hexhausts⟩
      have hs := hQ.of_take (by decide) (w := []) (prefix_of_take_eq hs'.symm) hr
      rw [run_get_bind, if_pos hs]
      rfl
    · rw [if_neg hr] at h
      cases h

/-! ### Choices -/

section Choices

variable {n : Nat} {Q : List Char → Prop} [DecidablePred Q] {q : Read α}

/-- A choice that the next characters decide, if the first reader takes them up where it succeeds. -/
theorem ite (hQ : DecidedBy n Q) (hn : n ≤ lookahead) (hp : Located p) (hq : Located q)
    (hlong : Consumes n p)
    (hend : ∀ {w s expected}, Q (w ++ s) → FaultsBehind p w s expected → ¬ Q w → Exhausts q w) :
    Located (get >>= fun r => if Q r.rest then p else q) where
  takes {r r' a} h := by
    rw [run_get_bind] at h
    by_cases hr : Q r.rest
    · rw [if_pos hr] at h
      obtain ⟨w, hw, htakes⟩ := hp.takes h
      refine ⟨w, hw, fun passed s' hs' => ?_⟩
      rw [run_get_bind, if_pos (hQ.append_congr (htakes.length_le hlong) (hw ▸ hr) s')]
      exact htakes passed s' hs'
    · rw [if_neg hr] at h
      obtain ⟨w, hw, htakes⟩ := hq.takes h
      refine ⟨w, hw, fun passed s' hs' => ?_⟩
      rw [run_get_bind, if_neg fun hs => hr (hw ▸ hQ.of_take hn hs' hs)]
      exact htakes passed s' hs'
  faults {r fault} h := by
    rw [run_get_bind] at h
    by_cases hr : Q r.rest
    · rw [if_pos hr] at h
      obtain ⟨w, s, expected, hw, hfault⟩ := hp.faults h
      rw [hw] at hr
      refine ⟨w, s, expected, hw, hfault.ne_nil, fun passed s' hs' => ?_, ?_⟩
      · rw [run_get_bind, if_pos (hQ.of_take hn (prefix_of_take_eq hs'.symm) hr)]
        exact hfault.run passed hs'
      · by_cases hw : Q w
        · exact .of_choice (if_pos hw) hfault.exhausts
        · exact .of_choice (if_neg hw) (hend hr hfault hw)
    · rw [if_neg hr] at h
      obtain ⟨w, s, expected, hw, hfault⟩ := hq.faults h
      refine ⟨w, s, expected, hw, hfault.ne_nil, fun passed s' hs' => ?_, ?_⟩
      · rw [run_get_bind, if_neg fun hs => hr (hw ▸ hQ.of_take hn (prefix_of_take_eq hs') hs)]
        exact hfault.run passed hs'
      · exact .of_choice (if_neg fun hs => hr (hw ▸ hQ.append s hs)) hfault.exhausts
  nil := by
    by_cases hr : Q []
    · exact .of_choice (if_pos hr) hp.nil
    · exact .of_choice (if_neg hr) hq.nil

/-- A choice that the next character decides. -/
theorem ite_head (hQ : DecidedBy 1 Q) (hp : Located p) (hq : Located q)
    (hlong : Consumes 1 p) :
    Located (get >>= fun r => if Q r.rest then p else q) := by
  refine .ite hQ (by decide) hp hq hlong fun {w s expected} hr _ hw => ?_
  -- the character that decides stands behind `w`, so nothing stands before it
  have hnil : w = [] := by
    by_contra hne
    have hlength : 1 ≤ w.length := List.length_pos_iff.mpr hne
    exact hw (by simpa using hQ.append_congr hlength hr [])
  exact hnil ▸ hq.nil

/-- A choice that a word decides, if the first reader passes over it. -/
theorem ite_word {g : Read α} (hu : u.length ≤ lookahead) (hp : Located p) (hg : Located g)
    (hq : Located q) (hlong : Consumes u.length p)
    (hrun : ∀ passed t, p.run ⟨passed, u ++ t⟩ = g.run ⟨u.reverse ++ passed, t⟩) :
    Located (get >>= fun r => if u.isPrefixOf r.rest = true then p else q) := by
  refine .ite (decidedBy_word u) hu hp hq hlong fun {w s expected} hr hfault hw => absurd ?_ hw
  rw [List.isPrefixOf_iff_prefix] at hr ⊢
  obtain ⟨t, ht⟩ := hr
  -- the fault is one of the reader that goes on behind the word
  have herror := (hrun [] t).symm.trans (ht ▸ hfault.run [] rfl)
  obtain ⟨w', s', expected', hw', hfault'⟩ := hg.faults herror
  obtain rfl : t = w' ++ s' := hw'
  have hsame := (hfault'.run (u.reverse ++ []) rfl).symm.trans herror
  have hposition := position_eq_of_fault_eq (Except.error.inj hsame)
  simp only [Reader.position, List.length_append, List.length_reverse, List.length_nil] at hposition
  refine List.prefix_of_prefix_length_le ⟨_, ht⟩ (List.prefix_append w s) ?_
  omega

end Choices

end Located

namespace Consumes

variable {m n : Nat}

theorem of_sound {G : List Char → α → Prop} (hp : Sound p G) (hG : ∀ {w a}, G w a → n ≤ w.length) :
    Consumes n p := by
  intro r a r' h
  obtain ⟨w, hw, hrest⟩ := hp h
  exact ⟨w, hG hw, hrest⟩

theorem of_located (hp : Located p) : Consumes 0 p := by
  intro r a r' h
  obtain ⟨w, hw, -⟩ := hp.takes h
  exact ⟨w, Nat.zero_le _, hw⟩

theorem bind (hp : Consumes m p) (hf : ∀ a, Consumes n (f a)) : Consumes (m + n) (p >>= f) := by
  intro r b r'' h
  obtain ⟨a, r', hrun, hrun'⟩ := run_bind_eq_ok_iff.mp h
  obtain ⟨u, hu, h₁⟩ := hp hrun
  obtain ⟨w, hw, h₂⟩ := hf a hrun'
  refine ⟨u ++ w, ?_, by rw [h₁, h₂, List.append_assoc]⟩
  change m + n ≤ (u ++ w).length
  rw [List.length_append]
  exact Nat.add_le_add hu hw

theorem eatWhere (inClass : Char → Bool) (expected : String) :
    Consumes 1 (Read.eatWhere inClass expected) :=
  .of_sound sound_eatWhere fun h => h.1 ▸ le_rfl

theorem eatBlank : Consumes 1 eatBlank :=
  (eatWhere isBlank "whitespace").bind fun _ => .of_located (.pure ())

theorem eatChar (c : Char) (expected : String) : Consumes 1 (Read.eatChar c expected) :=
  .of_sound sound_eatChar fun h => h ▸ le_rfl

theorem eatEntry {table : List (List Char × α)} (expected : String)
    (hwords : ∀ row ∈ table, n ≤ row.1.length) : Consumes n (Read.eatEntry table expected) :=
  .of_sound sound_eatEntry fun h => hwords _ h

theorem ite {Q : Reader → Prop} [DecidablePred Q] {q : Read α} (hp : Consumes n p) (hq : Consumes n q) :
    Consumes n (get >>= fun r => if Q r then p else q) := by
  intro r a r' h
  rw [run_get_bind] at h
  split at h
  · exact hp h
  · exact hq h

theorem eatWord (word : List Char) : Consumes word.length (eatWord word) :=
  eatEntry _ (by simp)

end Consumes

/-! ### Readers that do the same -/

/-- The two readers give the same and find the same faults, though they may fail otherwise. -/
structure Alike (p q : Read α) (r : Reader) : Prop where
  ok_iff {a : α} {r' : Reader} : p.run r = .ok (a, r') ↔ q.run r = .ok (a, r')
  fault_iff {fault : SyntaxFault} :
    p.run r = .error (.unexpectedText fault) ↔ q.run r = .error (.unexpectedText fault)

theorem Alike.of_run_eq {q : Read α} (h : p.run r = q.run r) : Alike p q r := by
  constructor <;> rw [h]

theorem Exhausts.of_alike {q : Read α} (hq : Exhausts q w) (h : ∀ r, r.rest = w → Alike p q r) :
    Exhausts p w where
  rest hr hrun := hq.rest hr ((h _ hr).ok_iff.mp hrun)
  no_fault fault hr hrun := hq.no_fault fault hr ((h _ hr).fault_iff.mp hrun)

/-- Readers of which it is decided by the same characters find the same fault behind the same ones. -/
theorem FaultsBehind.eq {q : Read α} {w' s' : List Char} {expected' : String} {fault : SyntaxFault}
    (h : FaultsBehind p w s expected) (h' : FaultsBehind q w' s' expected') (heq : w ++ s = w' ++ s')
    {passed : List Char} (hp : p.run ⟨passed, w ++ s⟩ = .error (.unexpectedText fault))
    (hq : q.run ⟨passed, w ++ s⟩ = .error (.unexpectedText fault)) :
    w' = w ∧ s' = s ∧ expected' = expected := by
  have hfault := Except.error.inj (hp.symm.trans (h.run passed rfl))
  have hfault' := Except.error.inj ((heq ▸ hq).symm.trans (h'.run passed rfl))
  have hsame := hfault'.symm.trans hfault
  have hlength : w'.length = w.length := by
    have hposition := position_eq_of_fault_eq hsame
    simpa [Reader.position] using hposition
  obtain ⟨rfl, rfl⟩ := List.append_inj heq.symm hlength
  exact ⟨rfl, rfl, congrArg SyntaxFault.expected (PhraseError.unexpectedText.inj hsame)⟩

/-- It is enough to be like a reader of which it is known, one for texts up to each length. -/
theorem Located.of_alike (h : ∀ n, ∃ q, Located q ∧ ∀ r : Reader, r.rest.length ≤ n → Alike p q r) :
    Located p where
  takes {r r' a} hrun := by
    obtain ⟨q, hq, halike⟩ := h r.rest.length
    obtain ⟨w, hw, -⟩ := hq.takes ((halike r le_rfl).ok_iff.mp hrun)
    refine ⟨w, hw, fun passed s' hs' => ?_⟩
    obtain ⟨q, hq, halike⟩ := h (max r.rest.length (w ++ s').length)
    obtain ⟨w', hw', htakes⟩ := hq.takes ((halike r (le_max_left _ _)).ok_iff.mp hrun)
    obtain rfl : w = w' := List.append_cancel_right (hw.symm.trans hw')
    exact (halike ⟨passed, w ++ s'⟩ (le_max_right _ _)).ok_iff.mpr (htakes passed s' hs')
  faults {r fault} hrun := by
    obtain ⟨passed, rest⟩ := r
    obtain ⟨q, hq, halike⟩ := h rest.length
    have hrun₁ := (halike _ le_rfl).fault_iff.mp hrun
    obtain ⟨w, s, expected, rfl, hfault⟩ := hq.faults hrun₁
    refine ⟨w, s, expected, rfl, hfault.ne_nil, fun passed' s' hs' => ?_, ?_⟩
    · obtain ⟨q', hq', halike'⟩ := h (max (w ++ s).length (w ++ s').length)
      have hrun₂ := (halike' _ (le_max_left _ _)).fault_iff.mp hrun
      obtain ⟨w', t, expected', heq, hfault'⟩ := hq'.faults hrun₂
      obtain ⟨rfl, rfl, rfl⟩ := hfault.eq hfault' heq hrun₁ hrun₂
      exact (halike' _ (le_max_right _ _)).fault_iff.mpr (hfault'.run passed' hs')
    · exact hfault.exhausts.of_alike fun r hr => halike r (by simp [hr])
  nil := by
    obtain ⟨q, hq, halike⟩ := h 0
    exact hq.nil.of_alike fun r hr => halike r (by simp [hr])

end Timetable.Read
