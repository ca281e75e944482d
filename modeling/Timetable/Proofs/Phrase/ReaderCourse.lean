import Mathlib.Tactic
import Timetable.Phrase.ReaderStep
import Timetable.Proofs.Phrase.Lookahead

/-! # The course of a reader

A step takes up text only if it succeeds, and then exactly what it looked for (`ReaderStep.TakesUp`); the
reader moves by as many characters (`ReaderStep.advances`).  So steps carried out one after another take up
the beginning of the text piece by piece, up to the place where the reader stands in the end
(`ReaderStep.exists_course_performAll`).  Wherever the reader stands, it knows what is left of the text, moves
on only by a success, and chooses the first word that fits (`Reader.Follows`). -/

namespace Timetable

open Text (isBlank)

theorem Reader.advance_advance (r : Reader) (m n : Nat) :
    (r.advance m).advance n = r.advance (m + n) := by
  simp only [advance, List.take_add, List.drop_drop, List.reverse_append, List.append_assoc]

theorem Reader.position_advance_of_prefix {r : Reader} {w : List Char} (h : w <+: r.rest) :
    (r.advance w.length).position = r.position + w.length := by
  rw [position_advance, Nat.min_eq_left h.length_le]

theorem Reader.position_le_length_text (r : Reader) : r.position ≤ r.text.length := by
  rw [text, List.length_append, List.length_reverse]
  exact Nat.le_add_right _ _

namespace ReaderStep

/-- Does the step take up text if it succeeds?  The others look, or word an error. -/
def eats : ReaderStep → Bool
  | eatWord _ | eatOneOf _ _ | eatChar _ _ | eatBlank | eatDigit => true
  | _ => false

/-- What a step takes up, by what comes of it. -/
inductive TakesUp : ReaderStep → Except PhraseError Finding → List Char → Prop
  | failure {step : ReaderStep} (e : PhraseError) : TakesUp step (.error e) []
  | look {step : ReaderStep} (hlook : step.eats = false) (finding : Finding) : TakesUp step (.ok finding) []
  | word (word : List Char) : TakesUp (eatWord word) (.ok .nothing) word
  | oneOf {words : List (List Char)} {word : List Char} (hmem : word ∈ words) (expected : String) :
      TakesUp (eatOneOf words expected) (.ok (.text word)) word
  | char (c : Char) (expected : Option String) : TakesUp (eatChar [c] expected) (.ok .nothing) [c]
  | blank {c : Char} (hc : isBlank c = true) : TakesUp eatBlank (.ok .nothing) [c]
  | digit {c : Char} (hc : c.isDigit = true) : TakesUp eatDigit (.ok (.text [c])) [c]

/-- Steps from a position on, with what comes of each and where the reader stands after it; together they
take up a text. -/
inductive Course : Nat → List ReaderStep → List (Except PhraseError Finding × Nat) → List Char → Prop
  | nil (position : Nat) : Course position [] [] []
  | cons {position : Nat} {step : ReaderStep} {steps : List ReaderStep}
      {result : Except PhraseError Finding} {results : List (Except PhraseError Finding × Nat)}
      {w text : List Char} (hstep : step.TakesUp result w)
      (hrest : Course (position + w.length) steps results text) :
      Course position (step :: steps) ((result, position + w.length) :: results) (w ++ text)

variable {α : Type} {step : ReaderStep} {steps : List ReaderStep} {r : Reader} {e : PhraseError}

/-! ### Single steps -/

section

variable {p : Read α} {f : α → Finding} {a : α} {r' : Reader}

theorem perform_of_ok (haction : step.action = p >>= fun a => pure (f a)) (hrun : p.run r = .ok (a, r')) :
    step.perform r = (.ok (f a), r') := by
  have hstep : step.action.run r = .ok (f a, r') := by
    rw [haction, Read.run_bind_of_ok hrun]
    rfl
  rw [perform, hstep]

theorem perform_of_error (haction : step.action = p >>= fun a => pure (f a)) (hrun : p.run r = .error e) :
    step.perform r = (.error e, r) := by
  have hstep : step.action.run r = .error e := by
    rw [haction, Read.run_bind_of_error hrun]
  rw [perform, hstep]

/-- The next step takes up the beginning of what is left, and the reader moves over it. -/
def Advances (step : ReaderStep) (r : Reader) : Prop :=
  ∃ w, step.TakesUp (step.perform r).1 w ∧ w <+: r.rest ∧ (step.perform r).2 = r.advance w.length

theorem advances_of_perform_eq {result : Except PhraseError Finding}
    (h : step.perform r = (result, r)) (hstep : step.TakesUp result []) : step.Advances r := by
  refine ⟨[], ?_, List.nil_prefix, ?_⟩
  · rwa [h]
  · rw [h]
    rfl

theorem advances_of_run (haction : step.action = p >>= fun a => pure (f a))
    (hp : ∀ a r', p.run r = .ok (a, r') →
      ∃ w, step.TakesUp (.ok (f a)) w ∧ w <+: r.rest ∧ r' = r.advance w.length) :
    step.Advances r := by
  cases hrun : p.run r with
  | error e => exact advances_of_perform_eq (perform_of_error haction hrun) (.failure e)
  | ok result =>
      obtain ⟨a, r'⟩ := result
      obtain ⟨w, hw, hbegins, rfl⟩ := hp a r' hrun
      refine ⟨w, ?_, hbegins, ?_⟩ <;> rw [perform_of_ok haction hrun]
      exact hw

theorem prefix_of_head? {c : Char} {text : List Char} (h : text.head? = some c) : [c] <+: text := by
  obtain ⟨rest, rfl⟩ := List.head?_eq_some_iff.mp h
  exact List.prefix_append [c] rest

theorem eq_advance_of_eatEntry {table : List (List Char × α)} {expected : String}
    (h : (Read.eatEntry table expected).run r = .ok (a, r')) :
    ∃ w, (w, a) ∈ table ∧ w <+: r.rest ∧ r' = r.advance w.length := by
  rw [Read.run_eatEntry] at h
  split at h
  · rename_i w value hfind
    obtain ⟨rfl, rfl⟩ := Prod.mk.inj (Except.ok.inj h)
    have hbegins : w.isPrefixOf r.rest = true := by simpa using List.find?_some hfind
    exact ⟨w, List.mem_of_find?_eq_some hfind, List.isPrefixOf_iff_prefix.mp hbegins, rfl⟩
  · contradiction

theorem eq_advance_of_eatWhere {inClass : Char → Bool} {expected : String} {c : Char}
    (h : (Read.eatWhere inClass expected).run r = .ok (c, r')) :
    inClass c = true ∧ [c] <+: r.rest ∧ r' = r.advance 1 := by
  rw [Read.run_eatWhere] at h
  split at h
  · contradiction
  · rename_i d hhead
    split at h
    · rename_i hclass
      obtain ⟨rfl, rfl⟩ := Prod.mk.inj (Except.ok.inj h)
      exact ⟨hclass, prefix_of_head? hhead, rfl⟩
    · contradiction

end

theorem advances_eatWord (word : List Char) (r : Reader) : (eatWord word).Advances r := by
  refine advances_of_run (p := Read.eatWord word) (f := fun _ => .nothing) rfl fun _ r' hrun => ?_
  obtain ⟨w, hmem, hbegins, rfl⟩ := eq_advance_of_eatEntry hrun
  obtain rfl : w = word := (Prod.mk.inj (List.mem_singleton.mp hmem)).1
  exact ⟨w, .word w, hbegins, rfl⟩

theorem advances_eatOneOf (words : List (List Char)) (expected : String) (r : Reader) :
    (eatOneOf words expected).Advances r := by
  refine advances_of_run (p := Read.eatOneOf words expected) (f := .text) rfl fun word r' hrun => ?_
  obtain ⟨w, hmem, hbegins, rfl⟩ := eq_advance_of_eatEntry hrun
  obtain ⟨_, hword, heq⟩ := List.mem_map.mp hmem
  obtain ⟨rfl, rfl⟩ := Prod.mk.inj heq
  exact ⟨_, .oneOf hword expected, hbegins, rfl⟩

theorem advances_eatChar (char : List Char) (expected : Option String) (r : Reader) :
    (eatChar char expected).Advances r := by
  match char with
  | [c] =>
      refine advances_of_run (p := Read.eatChar c (expectedChar [c] expected)) (f := fun _ => .nothing) rfl
        fun _ r' hrun => ?_
      rw [Read.run_eatChar] at hrun
      split at hrun
      · rename_i hhead
        obtain rfl : r.advance 1 = r' := (Prod.mk.inj (Except.ok.inj hrun)).2
        exact ⟨[c], .char c expected, prefix_of_head? hhead, rfl⟩
      · contradiction
  | [] => exact advances_of_perform_eq rfl (.failure _)
  | _ :: _ :: _ => exact advances_of_perform_eq rfl (.failure _)

theorem advances_eatBlank (r : Reader) : eatBlank.Advances r := by
  refine advances_of_run (p := Read.eatBlank) (f := fun _ => .nothing) rfl fun _ r' hrun => ?_
  obtain ⟨c, r₁, hc, hpure⟩ := Read.run_bind_eq_ok_iff.mp hrun
  obtain ⟨-, rfl⟩ := Read.run_pure_eq_ok_iff.mp hpure
  obtain ⟨hblank, hbegins, rfl⟩ := eq_advance_of_eatWhere hc
  exact ⟨[c], .blank hblank, hbegins, rfl⟩

theorem advances_eatDigit (r : Reader) : eatDigit.Advances r := by
  refine advances_of_run (p := Read.eatDigit) (f := fun c => .text [c]) rfl fun c r' hrun => ?_
  obtain ⟨hc, hbegins, rfl⟩ := eq_advance_of_eatWhere hrun
  exact ⟨[c], .digit hc, hbegins, rfl⟩

theorem snd_perform_of_look (hlook : step.eats = false) (r : Reader) : (step.perform r).2 = r := by
  cases step with
  | eatWord | eatOneOf | eatChar | eatBlank | eatDigit => contradiction
  | peek =>
      obtain ⟨passed, rest⟩ := r
      cases rest <;> rfl
  | _ => rfl

theorem advances_of_look (hlook : step.eats = false) (r : Reader) : step.Advances r := by
  refine ⟨[], ?_, List.nil_prefix, snd_perform_of_look hlook r⟩
  cases (step.perform r).1 with
  | error e => exact .failure e
  | ok finding => exact .look hlook finding

/-- A step takes up the beginning of what is left, or nothing. -/
theorem advances (step : ReaderStep) (r : Reader) : step.Advances r := by
  cases step with
  | eatWord word => exact advances_eatWord word r
  | eatOneOf words expected => exact advances_eatOneOf words expected r
  | eatChar char expected => exact advances_eatChar char expected r
  | eatBlank => exact advances_eatBlank r
  | eatDigit => exact advances_eatDigit r
  | _ => exact advances_of_look rfl r

theorem snd_perform_of_error (h : (step.perform r).1 = .error e) : (step.perform r).2 = r := by
  unfold perform at h ⊢
  cases hrun : step.action.run r with
  | error e => rfl
  | ok result =>
      rw [hrun] at h
      contradiction

/-! ### Steps one after another -/

theorem performAll_cons (step : ReaderStep) (steps : List ReaderStep) (r : Reader) :
    performAll (step :: steps) r
      = (((step.perform r).1, (step.perform r).2.position) :: (performAll steps (step.perform r).2).1,
        (performAll steps (step.perform r).2).2) :=
  rfl

/-- Steps one after another take up the beginning of what is left, piece by piece. -/
theorem exists_course_performAll (steps : List ReaderStep) (r : Reader) :
    ∃ text, Course r.position steps (performAll steps r).1 text ∧ text <+: r.rest
      ∧ (performAll steps r).2 = r.advance text.length := by
  induction steps generalizing r with
  | nil => exact ⟨[], .nil _, List.nil_prefix, rfl⟩
  | cons step steps ih =>
      obtain ⟨w, hw, ⟨rest, hrest⟩, hmove⟩ := step.advances r
      obtain ⟨text, hcourse, hbegins, hlast⟩ := ih (step.perform r).2
      have hposition : (step.perform r).2.position = r.position + w.length := by
        rw [hmove, Reader.position_advance_of_prefix ⟨rest, hrest⟩]
      have hleft : (step.perform r).2.rest = rest := by
        rw [hmove, Reader.advance, ← hrest, List.drop_left]
      rw [hposition] at hcourse
      rw [hleft] at hbegins
      refine ⟨w ++ text, ?_, ?_, ?_⟩
      · rw [performAll_cons, hposition]
        exact .cons hw hcourse
      · rw [← hrest]
        exact (List.prefix_append_right_inj w).mpr hbegins
      · rw [performAll_cons, hlast, hmove, Reader.advance_advance, List.length_append]

/-! ### The first word that fits -/

/-- The word is the first one of the words with which the text begins. -/
def IsFirst (words : List (List Char)) (text word : List Char) : Prop :=
  ∃ before after, words = before ++ word :: after ∧ word <+: text ∧ ∀ other ∈ before, ¬ other <+: text

/-- The text is empty, or one of the words goes on where it ends. -/
def CutOff (words : List (List Char)) (text : List Char) : Prop :=
  text = [] ∨ ∃ word ∈ words, text <+: word ∧ text ≠ word

variable {words : List (List Char)} {word text : List Char} {expected : String} {finding : Finding}

theorem IsFirst.begins (h : IsFirst words text word) : word <+: text := by
  obtain ⟨-, -, -, hbegins, -⟩ := h
  exact hbegins

theorem isFirst_iff : IsFirst words text word ↔ words.find? (fun word => word.isPrefixOf text) = some word := by
  rw [List.find?_eq_some_iff_append]
  constructor
  · rintro ⟨before, after, hwords, hword, hbefore⟩
    refine ⟨List.isPrefixOf_iff_prefix.mpr hword, before, after, hwords, fun other hother => ?_⟩
    rw [Bool.not_eq_true', ← Bool.not_eq_true, List.isPrefixOf_iff_prefix]
    exact hbefore other hother
  · rintro ⟨hword, before, after, hwords, hbefore⟩
    refine ⟨before, after, hwords, List.isPrefixOf_iff_prefix.mp hword, fun other hother => ?_⟩
    rw [← List.isPrefixOf_iff_prefix, Bool.not_eq_true, ← Bool.not_eq_true']
    exact hbefore other hother

theorem stopsShort_iff : r.stopsShort words = true ↔ CutOff words r.rest := by
  unfold Reader.stopsShort CutOff
  rw [Bool.or_eq_true, List.isEmpty_iff, List.any_eq_true]
  refine or_congr_right (exists_congr fun word => and_congr_right fun _ => ?_)
  rw [Bool.and_eq_true, decide_eq_true_iff, List.isPrefixOf_iff_prefix, and_comm]
  refine and_congr_right fun hbegins => ⟨fun hlt heq => ?_, fun hne => ?_⟩
  · exact absurd hlt (heq ▸ Nat.lt_irrefl _)
  · exact lt_of_le_of_ne hbegins.length_le fun hlength => hne (hbegins.eq_of_length hlength)

theorem perform_eatOneOf (words : List (List Char)) (expected : String) (r : Reader) :
    (eatOneOf words expected).perform r = match words.find? fun word => word.isPrefixOf r.rest with
      | some word => (.ok (.text word), r.advance word.length)
      | none => (.error (r.unexpected expected words), r) := by
  have hrun : (Read.eatOneOf words expected).run r = _ :=
    Read.run_eatEntry (words.map fun word => (word, word)) expected r
  rw [List.find?_map, List.map_map] at hrun
  cases hfind : words.find? fun word => word.isPrefixOf r.rest with
  | some word =>
      refine perform_of_ok (p := Read.eatOneOf words expected) (f := .text) rfl (hrun.trans ?_)
      simp [hfind]
  | none =>
      refine perform_of_error (p := Read.eatOneOf words expected) (f := .text) rfl (hrun.trans ?_)
      simp [Function.comp_def, hfind]

theorem perform_eatOneOf_eq_ok_iff : ((eatOneOf words expected).perform r).1 = .ok finding ↔
    ∃ word, finding = .text word ∧ IsFirst words r.rest word := by
  simp only [isFirst_iff, perform_eatOneOf]
  cases words.find? fun word => word.isPrefixOf r.rest with
  | none => simp
  | some word => simp [eq_comm]

/-- No word fits: the text is cut off, or it goes wrong where the reader stands. -/
theorem error_of_perform_eatOneOf (h : ((eatOneOf words expected).perform r).1 = .error e) :
    e = r.unexpected expected words := by
  rw [perform_eatOneOf] at h
  split at h
  · contradiction
  · exact (Except.error.inj h).symm

theorem unexpected_eq_unexpectedEnd_iff :
    r.unexpected expected words = .unexpectedEnd ↔ CutOff words r.rest := by
  rw [← stopsShort_iff, Reader.unexpected]
  by_cases hshort : r.stopsShort words = true
  · rw [if_pos hshort]
    exact iff_of_true rfl hshort
  · rw [if_neg hshort, Reader.fault]
    exact iff_of_false (by simp) hshort

end ReaderStep

/-! ### Readers on their way through a text -/

/-- What any further step does where the reader stands in the text. -/
structure Reader.Follows (text : List Char) (r : Reader) : Prop where
  position_le : r.position ≤ text.length
  remaining : ReaderStep.remaining.perform r = (.ok (.text (text.drop r.position)), r)
  atEnd : ∃ empty, ReaderStep.atEnd.perform r = (.ok (.flag empty), r)
    ∧ (empty = true ↔ text.drop r.position = [])
  forward (step : ReaderStep) :
    r.position ≤ (step.perform r).2.position ∧ (step.perform r).2.position ≤ text.length
  of_error (step : ReaderStep) (e : PhraseError) :
    (step.perform r).1 = .error e → (step.perform r).2 = r
  of_look (step : ReaderStep) : step.eats = false → (step.perform r).2 = r
  eatOneOf_ok (words : List (List Char)) (expected : String) (finding : Finding) :
    ((ReaderStep.eatOneOf words expected).perform r).1 = .ok finding
      ↔ ∃ word, finding = .text word ∧ ReaderStep.IsFirst words (text.drop r.position) word
  eatOneOf_moves (words : List (List Char)) (expected : String) (word : List Char) :
    ((ReaderStep.eatOneOf words expected).perform r).1 = .ok (.text word)
      → ((ReaderStep.eatOneOf words expected).perform r).2.position = r.position + word.length
  eatOneOf_error (words : List (List Char)) (expected : String) (e : PhraseError) :
    ((ReaderStep.eatOneOf words expected).perform r).1 = .error e
      → (e = .unexpectedEnd ↔ ReaderStep.CutOff words (text.drop r.position))
        ∧ (e ≠ .unexpectedEnd → e = .unexpectedText
          ⟨r.position, expected, String.ofList ((text.drop r.position).take Reader.excerptLength)⟩)

namespace ReaderStep

variable {r : Reader}

theorem follows_self (r : Reader) : r.Follows r.text := by
  have hrest := r.rest_eq_drop
  refine {
    position_le := ?_
    remaining := ?_
    atEnd := ⟨r.atEnd, rfl, ?_⟩
    forward := fun step => ?_
    of_error := fun step e => snd_perform_of_error
    of_look := fun step hlook => snd_perform_of_look hlook r
    eatOneOf_ok := fun words expected finding => ?_
    eatOneOf_moves := fun words expected word h => ?_
    eatOneOf_error := fun words expected e h => ?_ }
  · exact r.position_le_length_text
  · rw [← hrest]
    rfl
  · rw [← hrest, Reader.atEnd, List.isEmpty_iff]
  · have htext : (step.perform r).2.text = r.text := by
      obtain ⟨w, -, -, hmove⟩ := step.advances r
      rw [hmove, Reader.text_advance]
    refine ⟨?_, htext ▸ Reader.position_le_length_text _⟩
    obtain ⟨w, -, hbegins, hmove⟩ := step.advances r
    rw [hmove, Reader.position_advance_of_prefix hbegins]
    exact Nat.le_add_right _ _
  · rw [← hrest]
    exact perform_eatOneOf_eq_ok_iff
  · obtain ⟨word', heq, hfirst⟩ := perform_eatOneOf_eq_ok_iff.mp h
    obtain rfl : word = word' := Finding.text.inj heq
    rw [perform_eatOneOf, isFirst_iff.mp hfirst]
    exact Reader.position_advance_of_prefix hfirst.begins
  · rw [← hrest]
    obtain rfl := error_of_perform_eatOneOf h
    refine ⟨unexpected_eq_unexpectedEnd_iff, fun hne => ?_⟩
    rw [Ne, unexpected_eq_unexpectedEnd_iff, ← stopsShort_iff] at hne
    rw [Reader.unexpected, if_neg hne, Reader.fault]

/-- Whatever steps a reader carries out on a text, they have taken up what stands before it, one piece after
another, and it stands where it can follow the text. -/
theorem performAll_ofText_follows (text : List Char) (steps : List ReaderStep) :
    (performAll steps (.ofText text)).2.Follows text
      ∧ Course 0 steps (performAll steps (.ofText text)).1
        (text.take (performAll steps (.ofText text)).2.position) := by
  obtain ⟨before, hcourse, hbegins, hlast⟩ := exists_course_performAll steps (.ofText text)
  refine ⟨?_, ?_⟩
  · have hfollows := follows_self (performAll steps (.ofText text)).2
    rwa [hlast, Reader.text_advance, Reader.text_ofText, ← hlast] at hfollows
  · have htake : before = text.take before.length := List.prefix_iff_eq_take.mp hbegins
    rw [hlast, Reader.position_advance_of_prefix hbegins, Reader.position_ofText, Nat.zero_add, ← htake]
    exact hcourse

end ReaderStep

end Timetable
