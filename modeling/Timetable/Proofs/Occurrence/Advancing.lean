import Timetable.Proofs.Occurrence.Reach
import Timetable.Proofs.Occurrence.Stepping

/-! # Iterators only move forward

Between its steps an iterator may be reconfigured, and what surrounds it may change: the clock can be
turned back, be in another offset, or fail (`Iterator.Event`).  Whatever happens, a step looks for
candidates after its own cursor or after a later instant (`Iterator.current_le_of_start`), so that what
it finds is later than its cursor (`Iterator.current_lt_of_next`).  A run of events therefore moves the
cursor from one instant to the next later one that is found (`Iterator.Advances`), and never back
(`Iterator.performAll_increasing`). -/

namespace Timetable

namespace Iterator

/-- Steps until one of them fails, before each of which something may change around the iterator: what
each of them answers. -/
def attempts (it : Iterator) :
    List (Scene → Scene) → StateM Scene (List (Except Error Instant) × Iterator)
  | [] => return ([], it)
  | change :: changes => do
    modify change
    match ← it.next with
    | (.error error, it) => return ([.error error], it)
    | (.ok t, it) =>
      let (answers, it) ← it.attempts changes
      return (.ok t :: answers, it)

/-- As `take`, but something may change around the iterator before each of the steps. -/
def takeAmid (it : Iterator) (changes : List (Scene → Scene)) :
    StateM Scene (Except Error (List Instant) × Iterator) := do
  let (answers, it) ← it.attempts changes
  return (answers.mapM id, it)

/-- What can happen to an iterator, or around it. -/
inductive Event where
  /-- One step. -/
  | next
  /-- Several steps until one of them fails, and what changes before each of them. -/
  | take (changes : List (Scene → Scene))
  | withSkipOutdated (skip : Bool)
  | assumeOffset (offset : Offset)
  | useLocalOffset
  /-- The clock, the host, the settings or the log become others. -/
  | change (f : Scene → Scene)

/-- What an event makes of an iterator, and what each of its steps answers. -/
def perform (it : Iterator) : Event → StateM Scene (List (Except Error Instant) × Iterator)
  | .next => do
    let (answer, it) ← it.next
    return ([answer], it)
  | .take changes => it.attempts changes
  | .withSkipOutdated skip => return ([], it.withSkipOutdated skip)
  | .assumeOffset offset => return ([], it.assumeOffset offset)
  | .useLocalOffset => return ([], it.useLocalOffset)
  | .change f => do
    modify f
    return ([], it)

/-- What several events make of an iterator, and what each of its steps answers. -/
def performAll (it : Iterator) :
    List Event → StateM Scene (List (Except Error Instant) × Iterator)
  | [] => return ([], it)
  | event :: events => do
    let (answers, it) ← it.perform event
    let (rest, it) ← it.performAll events
    return (answers ++ rest, it)

/-- What is found, without the failures. -/
def found (answers : List (Except Error Instant)) : List Instant :=
  answers.filterMap Except.toOption

/-- The cursor goes from one instant to another along what is found, always forward, and stays where it
is at a failure. -/
inductive Advances : Instant → List (Except Error Instant) → Instant → Prop where
  | nil {c : Instant} : Advances c [] c
  | step {c t d : Instant} {answers : List (Except Error Instant)} (h : c < t)
      (rest : Advances t answers d) : Advances c (.ok t :: answers) d
  | failed {c d : Instant} {answers : List (Except Error Instant)} (error : Error)
      (rest : Advances c answers d) : Advances c (.error error :: answers) d

variable {it : Iterator} {scene scene' : Scene} {c d e t : Instant}
  {answers rest : List (Except Error Instant)}

/-! ### Advances -/

namespace Advances

theorem append (h : Advances c answers d) (hrest : Advances d rest e) :
    Advances c (answers ++ rest) e := by
  induction h with
  | nil => exact hrest
  | step hlt _ ih => exact .step hlt (ih hrest)
  | failed error _ ih => exact .failed error (ih hrest)

theorem le (h : Advances c answers d) : c ≤ d := by
  induction h with
  | nil => exact le_rfl
  | step hlt _ ih => exact (le_of_lt hlt).trans ih
  | failed error _ ih => exact ih

theorem lt_of_mem_found (h : Advances c answers d) : ∀ t ∈ found answers, c < t := by
  induction h with
  | nil => intro t ht; cases ht
  | step hlt _ ih =>
      intro t ht
      rcases List.mem_cons.mp ht with rfl | ht
      · exact hlt
      · exact hlt.trans (ih t ht)
  | failed error _ ih => exact ih

theorem pairwise (h : Advances c answers d) : (c :: found answers).Pairwise (· < ·) := by
  refine List.pairwise_cons.mpr ⟨h.lt_of_mem_found, ?_⟩
  induction h with
  | nil => exact .nil
  | step hlt hrest ih => exact List.pairwise_cons.mpr ⟨hrest.lt_of_mem_found, ih⟩
  | failed error _ ih => exact ih

theorem eq_getLastD (h : Advances c answers d) : d = (found answers).getLastD c := by
  induction h with
  | nil => rfl
  | step hlt _ ih =>
      rw [ih]
      exact List.getLastD_cons.symm
  | failed error _ ih => exact ih

end Advances

theorem found_of_mapM {ts : List Instant} (h : answers.mapM id = .ok ts) : found answers = ts := by
  induction answers generalizing ts with
  | nil =>
      cases h
      rfl
  | cons answer answers ih =>
      rw [List.mapM_cons] at h
      cases answer with
      | error error => cases h
      | ok t =>
          cases hrest : answers.mapM id with
          | error error => rw [hrest] at h; cases h
          | ok us =>
              rw [hrest] at h
              cases h
              exact congrArg (t :: ·) (ih hrest)

/-! ### One step -/

theorem current_le_of_start (h : it.start.run scene = (.ok c, scene')) : it.current ≤ c := by
  obtain ⟨cursor, hcursor, hc⟩ := exists_cursor_of_start (congrArg Prod.fst h)
  have hle : it.current ≤ cursor := by rw [Instant.le_iff, position_of_cursor? hcursor]
  rcases hc with rfl | ⟨-, hlt⟩
  · exact hle
  · exact hle.trans (le_of_lt hlt)

/-- What a step finds is later than the cursor. -/
theorem current_lt_of_next (h : (it.next.run scene).1.1 = .ok t) : it.current < t := by
  obtain ⟨c, scene', hstart, hnext⟩ := exists_start_of_next h
  exact lt_of_le_of_lt (current_le_of_start hstart) (Plan.isLeast_nextAfter? hnext).1.1

theorem advances_next (it : Iterator) (scene : Scene) :
    Advances it.current [(it.next.run scene).1.1] (it.next.run scene).1.2.current := by
  rw [snd_next_run]
  cases h : (it.next.run scene).1.1 with
  | error error => exact .failed error .nil
  | ok t => exact .step (current_lt_of_next h) .nil

/-! ### Several steps -/

theorem attempts_cons_run (it : Iterator) (change : Scene → Scene) (changes : List (Scene → Scene))
    (scene : Scene) :
    (it.attempts (change :: changes)).run scene = match it.next.run (change scene) with
      | ((.error error, it), scene') => (([.error error], it), scene')
      | ((.ok t, it), scene') =>
        match (it.attempts changes).run scene' with
        | ((answers, it), scene'') => ((.ok t :: answers, it), scene'') := by
  have hchange : (modify change : StateM Scene PUnit).run scene = (⟨⟩, change scene) := rfl
  rw [attempts, run_bind_of_run hchange]
  cases hnext : it.next.run (change scene) with
  | mk result scene' =>
      obtain ⟨answer, moved⟩ := result
      rw [run_bind_of_run hnext]
      cases answer <;> rfl

theorem takeAmid_run (it : Iterator) (changes : List (Scene → Scene)) (scene : Scene) :
    (it.takeAmid changes).run scene = match (it.attempts changes).run scene with
      | ((answers, last), scene') => ((answers.mapM id, last), scene') :=
  rfl

theorem takeAmid_cons_run (it : Iterator) (change : Scene → Scene) (changes : List (Scene → Scene))
    (scene : Scene) :
    (it.takeAmid (change :: changes)).run scene = match it.next.run (change scene) with
      | ((.error error, it), scene') => ((.error error, it), scene')
      | ((.ok t, it), scene') =>
        match (it.takeAmid changes).run scene' with
        | ((.ok rest, it), scene'') => ((.ok (t :: rest), it), scene'')
        | ((.error error, it), scene'') => ((.error error, it), scene'') := by
  rw [takeAmid_run, attempts_cons_run]
  obtain ⟨⟨answer, moved⟩, scene'⟩ := it.next.run (change scene)
  cases answer with
  | error error => rfl
  | ok t =>
      dsimp only
      rw [takeAmid_run]
      obtain ⟨⟨answers, last⟩, scene''⟩ := (moved.attempts changes).run scene'
      simp only [List.mapM_cons, id_eq]
      cases answers.mapM id <;> rfl

/-- Where nothing changes before a step, this is `take`. -/
theorem take_run_eq_takeAmid (it : Iterator) (count : Nat) (scene : Scene) :
    (it.take count).run scene = (it.takeAmid (List.replicate count id)).run scene := by
  induction count generalizing it scene with
  | zero => rfl
  | succ count ih =>
      rw [List.replicate_succ, takeAmid_cons_run, id_eq]
      cases hnext : it.next.run scene with
      | mk result scene' =>
          obtain ⟨answer, moved⟩ := result
          cases answer with
          | error error => exact take_succ_run_of_error hnext count
          | ok t =>
              have hrest := ih moved scene'
              dsimp only
              generalize (moved.takeAmid (List.replicate count id)).run scene' = result at hrest ⊢
              obtain ⟨⟨result, last⟩, scene''⟩ := result
              refine (take_succ_run hnext count).trans ?_
              cases result <;> simp only [hrest]

theorem advances_attempts (it : Iterator) (changes : List (Scene → Scene)) (scene : Scene) :
    Advances it.current ((it.attempts changes).run scene).1.1
      ((it.attempts changes).run scene).1.2.current := by
  induction changes generalizing it scene with
  | nil => exact .nil
  | cons change changes ih =>
      have hstep := it.advances_next (change scene)
      rw [attempts_cons_run]
      cases hnext : it.next.run (change scene) with
      | mk result scene' =>
          obtain ⟨answer, moved⟩ := result
          rw [hnext] at hstep
          cases answer with
          | error error => exact hstep
          | ok t => exact hstep.append (ih moved scene')

theorem increasing_of_takeAmid_run {changes : List (Scene → Scene)} {ts : List Instant}
    (h : ((it.takeAmid changes).run scene).1.1 = .ok ts) : (it.current :: ts).Pairwise (· < ·)
      ∧ ((it.takeAmid changes).run scene).1.2.current = ts.getLastD it.current := by
  have hadvances := it.advances_attempts changes scene
  rw [← found_of_mapM h]
  exact ⟨hadvances.pairwise, hadvances.eq_getLastD⟩

/-- No event moves the cursor but along what is found. -/
theorem advances_perform (it : Iterator) (event : Event) (scene : Scene) :
    Advances it.current ((it.perform event).run scene).1.1
      ((it.perform event).run scene).1.2.current := by
  cases event with
  | next => exact it.advances_next scene
  | take changes => exact it.advances_attempts changes scene
  | withSkipOutdated skip => exact .nil
  | assumeOffset offset => exact .nil
  | useLocalOffset => exact .nil
  | change f => exact .nil

theorem perform_next_run (it : Iterator) (scene : Scene) :
    (it.perform .next).run scene = match it.next.run scene with
      | ((answer, it), scene') => (([answer], it), scene') :=
  rfl

theorem performAll_cons_run (it : Iterator) (event : Event) (events : List Event) (scene : Scene) :
    (it.performAll (event :: events)).run scene = match (it.perform event).run scene with
      | ((answers, it), scene') => match (it.performAll events).run scene' with
        | ((rest, it), scene'') => ((answers ++ rest, it), scene'') :=
  rfl

theorem performAll_append (it : Iterator) (before after : List Event) :
    it.performAll (before ++ after) = do
      let (answers, reached) ← it.performAll before
      let (rest, last) ← reached.performAll after
      return (answers ++ rest, last) := by
  induction before generalizing it with
  | nil => simp [performAll]
  | cons event before ih => simp [performAll, ih]

theorem advances_performAll (it : Iterator) (events : List Event) (scene : Scene) :
    Advances it.current ((it.performAll events).run scene).1.1
      ((it.performAll events).run scene).1.2.current := by
  induction events generalizing it scene with
  | nil => exact .nil
  | cons event events ih =>
      have hfirst := it.advances_perform event scene
      exact hfirst.append (ih _ _)

/-- What a step keeps of an iterator is kept along every run, if it does not depend on what can be told the
iterator. -/
theorem performAll_keeps {P : Iterator → Prop}
    (hnext : ∀ it scene, P it → P (it.next.run scene).1.2)
    (hskip : ∀ it skip, P it → P (it.withSkipOutdated skip))
    (hassume : ∀ it offset, P it → P (it.assumeOffset offset))
    (hlocal : ∀ it, P it → P it.useLocalOffset) (h : P it) (events : List Event) (scene : Scene) :
    P ((it.performAll events).run scene).1.2 := by
  have hattempts (changes : List (Scene → Scene)) :
      ∀ (it : Iterator) (scene : Scene), P it → P ((it.attempts changes).run scene).1.2 := by
    induction changes with
    | nil => exact fun it scene h => h
    | cons change changes ih =>
        intro it scene h
        have hmoved := hnext it (change scene) h
        rw [attempts_cons_run]
        generalize it.next.run (change scene) = result at hmoved ⊢
        obtain ⟨⟨answer, moved⟩, scene'⟩ := result
        cases answer with
        | error error => exact hmoved
        | ok t => exact ih moved scene' hmoved
  induction events generalizing it scene with
  | nil => exact h
  | cons event events ih =>
      have hevent : P ((it.perform event).run scene).1.2 := by
        cases event with
        | next => exact hnext it scene h
        | take changes => exact hattempts changes it scene h
        | withSkipOutdated skip => exact hskip it skip h
        | assumeOffset offset => exact hassume it offset h
        | useLocalOffset => exact hlocal it h
        | change f => exact h
      exact ih hevent _

/-- Whatever happens to an iterator and around it, what its steps find is in strictly increasing order
from its cursor on, the cursor is the last that has been found, and it has never been later before.
Where such a run has led, a step that succeeds finds an instant later than the cursor and moves it
there, and several steps do the same one after the other. -/
theorem performAll_increasing (it : Iterator) (events : List Event) (scene : Scene) :
    match (it.performAll events).run scene with
    | ((answers, last), scene') =>
        (it.current :: found answers).Pairwise (· < ·)
          ∧ last.current = (found answers).getLastD it.current
          ∧ (∀ n, ((it.performAll (events.take n)).run scene).1.2.current ≤ last.current)
          ∧ (∀ t, (last.next.run scene').1.1 = .ok t →
              last.current < t ∧ (last.next.run scene').1.2.current = t)
          ∧ ∀ count, last.current ≤ ((last.take count).run scene').1.2.current
              ∧ ∀ ts, ((last.take count).run scene').1.1 = .ok ts →
                (last.current :: ts).Pairwise (· < ·)
                  ∧ ((last.take count).run scene').1.2.current = ts.getLastD last.current := by
  have hrun := it.advances_performAll events scene
  have hprefix (n : Nat) : ((it.performAll (events.take n)).run scene).1.2.current
      ≤ ((it.performAll events).run scene).1.2.current := by
    have happend := it.performAll_append (events.take n) (events.drop n)
    rw [List.take_append_drop] at happend
    rw [happend]
    exact (advances_performAll _ (events.drop n) _).le
  generalize (it.performAll events).run scene = result at hrun hprefix ⊢
  obtain ⟨⟨answers, last⟩, scene'⟩ := result
  refine ⟨hrun.pairwise, hrun.eq_getLastD, hprefix, ?_, ?_⟩
  · intro t ht
    rw [snd_next_run, ht]
    exact ⟨current_lt_of_next ht, rfl⟩
  · intro count
    rw [take_run_eq_takeAmid]
    exact ⟨(last.advances_attempts _ scene').le, fun ts hts => increasing_of_takeAmid_run hts⟩

/-- At 6 PM on Mondays, both said twice: a step to the 21st of June 2021, one that fails when the clock
has been turned back, and one at another offset. -/
example (scene : Scene) :
    let manual (date : Date) (failures : Int) (s : Scene) : Scene :=
      { s with clock := .manual ⟨⟨date, .onTheHour 12, some .utc⟩, failures, 0⟩ }
    let it : Iterator :=
      ⟨.single ⟨[.onTheHour 18, .onTheHour 18], some [⟨.monday, none⟩, ⟨.monday, none⟩], none,
          by decide, by decide⟩,
        ⟨⟨737950, by decide, by decide⟩, .onTheHour 13, .utc⟩, true, none, false⟩
    ((it.performAll
      [.change (manual ⟨737960, by decide, by decide⟩ 0), .next,
        .change (manual ⟨700000, by decide, by decide⟩ 1), .next,
        .assumeOffset (.ofTime true (.onTheHour 3)), .next]).run scene).1.1
      = [.ok ⟨⟨737962, by decide, by decide⟩, .onTheHour 18, .utc⟩,
        .error (.indeterminateOffset "stub clock has no local offset"),
        .ok ⟨⟨737969, by decide, by decide⟩, .onTheHour 18, .ofTime true (.onTheHour 3)⟩] := by
  cbv

end Iterator

end Timetable
