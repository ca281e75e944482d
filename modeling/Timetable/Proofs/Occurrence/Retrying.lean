import Timetable.Proofs.Occurrence.Advancing
import Timetable.Proofs.Occurrence.Indifference

/-! # Steps that fail

A step that fails leaves the iterator as it was, so that it can be tried again
(`Iterator.snd_performAll_tries_run`).  As often as a manual clock is to fail, so often does a step that
needs local time, and the step after that is the one that was tried first
(`Iterator.performAll_nexts_run`).  If one of several steps fails, the iterator is where the steps
before it have led (`Iterator.exists_interruption`).  This, and that a step does not fail for want of
what it does not need, is `Iterator.Retryable`. -/

namespace Timetable

namespace ManualClock

/-- What a manual clock fails with. -/
def failure : Error :=
  .indeterminateOffset "stub clock has no local offset"

/-- The clock after it has failed. -/
def failed (m : ManualClock) : ManualClock :=
  { m with lookups := m.lookups + 1, failures := m.failures - 1 }

end ManualClock

namespace Iterator

variable {it : Iterator} {scene scene' : Scene}

/-! ### A clock that fails -/

section failing

variable (hskip : it.skipOutdated = true) (hoffset : it.offset = none)
include hskip hoffset

/-- As long as a manual clock is to fail, so does a step that needs local time. -/
theorem next_run_of_failing {m : ManualClock} (hm : 0 < m.failures) (surroundings : Surroundings) :
    it.next.run ⟨.manual m, surroundings⟩
      = ((.error ManualClock.failure, it), ⟨.manual m.failed, surroundings⟩) := by
  have hlookup : Clock.localOffset.run ⟨.manual m, surroundings⟩
      = (.error ManualClock.failure, ⟨.manual m.failed, surroundings⟩) := by
    rw [Clock.localOffset_run_manual, ManualClock.localOffset, if_pos hm]
    rfl
  have hpresent : it.present.run ⟨.manual m, surroundings⟩
      = (.error ManualClock.failure, ⟨.manual m.failed, surroundings⟩) := by
    rw [present, hoffset]
    show (Clock.nowLocal).run _ = _
    rw [Clock.nowLocal, Action.run_bind, hlookup]
  have hcursor : it.cursor? = some it.current := by rw [cursor?, hoffset]
  rw [next_run, choose, Action.run_bind, start, Action.run_bind, Action.run_lift, hcursor]
  simp only [orOutOfCalendar, hskip, if_true, Action.run_bind, hpresent]

/-- If they are made as often as a manual clock is to fail, all of these steps fail, and leave the clock
with no failure to come. -/
theorem performAll_run_of_failing (times : Nat) {m : ManualClock} (hm : m.failures = times)
    (surroundings : Surroundings) :
    (it.performAll (List.replicate times .next)).run ⟨.manual m, surroundings⟩
      = ((List.replicate times (.error ManualClock.failure), it),
        Scene.lookedUp times ⟨.manual m.reliable, surroundings⟩) := by
  induction times generalizing m with
  | zero =>
      obtain ⟨now, failures, lookups⟩ := m
      obtain rfl : failures = 0 := hm
      rfl
  | succ times ih =>
      have hstep := next_run_of_failing hskip hoffset (by omega : 0 < m.failures) surroundings
      have hfailed : m.failed.failures = times := by
        show m.failures - 1 = times
        omega
      have hlookups : m.lookups + (times + 1) = m.failed.lookups + times := by
        show _ = m.lookups + 1 + times
        omega
      have hrest := ih hfailed
      rw [List.replicate_succ, performAll_cons_run, perform_next_run, hstep]
      simp only [hrest, Scene.lookedUp, ManualClock.reliable, hlookups]
      rfl

/-- The step after them is the one that would have been made first without the failures. -/
theorem performAll_nexts_run (times : Nat) {m : ManualClock} (hm : m.failures = times)
    (surroundings : Surroundings) :
    (it.performAll (List.replicate (times + 1) .next)).run ⟨.manual m, surroundings⟩
      = match it.next.run ⟨.manual m.reliable, surroundings⟩ with
        | ((answer, last), scene) =>
            ((List.replicate times (.error ManualClock.failure) ++ [answer], last),
              scene.lookedUp times) := by
  have hfailing := performAll_run_of_failing hskip hoffset times hm surroundings
  obtain ⟨hresult, -, hscene⟩ := next_respects (ignoresLog_askedMore times)
    (fun _ => present_respects_askedMore hoffset times) ⟨.manual m.reliable, surroundings⟩ _
    ⟨⟨_, rfl⟩, rfl⟩
  rw [List.replicate_succ', performAll_append, run_bind_of_run hfailing]
  cases hnext : it.next.run ⟨.manual m.reliable, surroundings⟩ with
  | mk result scene =>
      obtain ⟨answer, last⟩ := result
      rw [hnext] at hresult hscene
      have hstep : it.next.run (Scene.lookedUp times ⟨.manual m.reliable, surroundings⟩)
          = ((answer, last), scene.lookedUp times) := Prod.ext hresult.symm hscene
      have hlast : (it.performAll [.next]).run
          (Scene.lookedUp times ⟨.manual m.reliable, surroundings⟩)
            = (([answer], last), scene.lookedUp times) := by
        rw [performAll_cons_run, perform_next_run, hstep]
        rfl
      exact run_bind_of_run hlast

end failing

/-! ### Steps that fail -/

/-- Tries to make a step, before each of which something changes around the iterator. -/
def tries (changes : List (Scene → Scene)) : List Event :=
  changes.flatMap fun change => [.change change, .next]

theorem snd_next_run_of_error {error : Error} (h : (it.next.run scene).1.1 = .error error) :
    (it.next.run scene).1.2 = it := by
  rw [snd_next_run, h]

theorem performAll_tries_cons_run (it : Iterator) (change : Scene → Scene)
    (changes : List (Scene → Scene)) (scene : Scene) :
    (it.performAll (tries (change :: changes))).run scene = match it.next.run (change scene) with
      | ((answer, it), scene') => match (it.performAll (tries changes)).run scene' with
        | ((rest, it), scene'') => ((answer :: rest, it), scene'') :=
  rfl

theorem snd_performAll_tries_run (changes : List (Scene → Scene)) (scene : Scene)
    (h : ∀ answer ∈ ((it.performAll (tries changes)).run scene).1.1, ∃ error, answer = .error error) :
    ((it.performAll (tries changes)).run scene).1.2 = it := by
  induction changes generalizing scene with
  | nil => rfl
  | cons change changes ih =>
      have hsame := it.snd_next_run (change scene)
      rw [performAll_tries_cons_run] at h ⊢
      cases hnext : it.next.run (change scene) with
      | mk result scene' =>
          obtain ⟨answer, moved⟩ := result
          rw [hnext] at hsame h
          obtain ⟨error, rfl⟩ := h answer List.mem_cons_self
          obtain rfl : moved = it := hsame
          exact ih scene' fun answer hanswer => h answer (List.mem_cons_of_mem _ hanswer)

/-- If one of several steps fails, the iterator is where the steps before it have led. -/
theorem exists_of_takeAmid_run {changes : List (Scene → Scene)} {error : Error} {last : Iterator}
    (h : (it.takeAmid changes).run scene = ((.error error, last), scene')) :
    ∃ before change after ts reached, changes = before ++ change :: after
      ∧ (it.takeAmid before).run scene = ((.ok ts, last), reached)
      ∧ last.next.run (change reached) = ((.error error, last), scene') := by
  induction changes generalizing it scene with
  | nil => cases h
  | cons change changes ih =>
      have hsame := it.snd_next_run (change scene)
      rw [takeAmid_cons_run] at h
      cases hnext : it.next.run (change scene) with
      | mk result scene₁ =>
          obtain ⟨answer, moved⟩ := result
          rw [hnext] at hsame h
          cases answer with
          | error error' =>
              obtain rfl : moved = it := hsame
              cases h
              exact ⟨[], change, changes, [], scene, rfl, rfl, hnext⟩
          | ok t =>
              dsimp only at h
              cases hrest : (moved.takeAmid changes).run scene₁ with
              | mk result scene₂ =>
                  obtain ⟨result, last'⟩ := result
                  rw [hrest] at h
                  cases result with
                  | ok rest => cases h
                  | error error' =>
                      cases h
                      obtain ⟨before, change', after, ts, reached, rfl, hbefore, hlast⟩ := ih hrest
                      refine ⟨change :: before, change', after, t :: ts, reached, rfl, ?_, hlast⟩
                      rw [takeAmid_cons_run, hnext]
                      dsimp only
                      rw [hbefore]

theorem exists_of_takeAmid_cons_run {change : Scene → Scene} {changes : List (Scene → Scene)}
    {us : List Instant} (h : ((it.takeAmid (change :: changes)).run scene).1.1 = .ok us) :
    ∃ t moved scene' rest, it.next.run (change scene) = ((.ok t, moved), scene')
      ∧ ((moved.takeAmid changes).run scene').1.1 = .ok rest ∧ us = t :: rest := by
  rw [takeAmid_cons_run] at h
  cases hnext : it.next.run (change scene) with
  | mk result scene' =>
      obtain ⟨answer, moved⟩ := result
      rw [hnext] at h
      cases answer with
      | error error => cases h
      | ok t =>
          dsimp only at h
          cases hrest : (moved.takeAmid changes).run scene' with
          | mk result scene'' =>
              obtain ⟨result, last⟩ := result
              rw [hrest] at h
              cases result with
              | error error => cases h
              | ok rest =>
                  cases h
                  exact ⟨t, moved, scene', rest, rfl, by rw [hrest], rfl⟩

theorem length_of_takeAmid_run {changes : List (Scene → Scene)} {ts : List Instant}
    (h : ((it.takeAmid changes).run scene).1.1 = .ok ts) : ts.length = changes.length := by
  induction changes generalizing it scene ts with
  | nil =>
      cases h
      rfl
  | cons change changes ih =>
      obtain ⟨t, moved, scene', rest, -, hrest, rfl⟩ := exists_of_takeAmid_cons_run h
      rw [List.length_cons, List.length_cons, ih hrest]

/-- What the steps before the failure have found leads to where the iterator is. -/
theorem exists_interruption {changes : List (Scene → Scene)} {error : Error} {last : Iterator}
    (h : (it.takeAmid changes).run scene = ((.error error, last), scene')) :
    ∃ before change after ts reached, changes = before ++ change :: after
      ∧ (it.takeAmid before).run scene = ((.ok ts, last), reached)
      ∧ ts.length = before.length ∧ last.current = ts.getLastD it.current
      ∧ last.next.run (change reached) = ((.error error, last), scene') := by
  obtain ⟨before, change, after, ts, reached, hchanges, hbefore, hlast⟩ := exists_of_takeAmid_run h
  have hts : ((it.takeAmid before).run scene).1.1 = .ok ts := by rw [hbefore]
  have hcurrent := (increasing_of_takeAmid_run hts).2
  rw [hbefore] at hcurrent
  exact ⟨before, change, after, ts, reached, hchanges, hbefore, length_of_takeAmid_run hts, hcurrent,
    hlast⟩

/-- What some steps find is what is found first if further steps are made. -/
theorem take_of_takeAmid_append_run {before others : List (Scene → Scene)} {ts us : List Instant}
    (h : ((it.takeAmid before).run scene).1.1 = .ok ts)
    (hus : ((it.takeAmid (before ++ others)).run scene).1.1 = .ok us) :
    us.take before.length = ts := by
  induction before generalizing it scene ts us with
  | nil =>
      cases h
      rfl
  | cons change before ih =>
      obtain ⟨t, moved, scene', rest, hnext, hrest, rfl⟩ := exists_of_takeAmid_cons_run h
      obtain ⟨t', moved', scene'', rest', hnext', hrest', rfl⟩ := exists_of_takeAmid_cons_run hus
      rw [hnext] at hnext'
      cases hnext'
      rw [List.length_cons, List.take_succ_cons, ih hrest hrest']

/-- Steps that do not fail find the same if the clock has no failure to come. -/
theorem take_run_reliable {count : Nat} {ts : List Instant}
    (h : ((it.take count).run scene).1.1 = .ok ts) :
    ((it.take count).run scene.reliable).1.1 = .ok ts := by
  obtain ⟨clock, surroundings⟩ := scene
  cases clock with
  | system localOffset => exact h
  | manual m =>
      suffices hsame : ((it.take count).run ⟨.manual m, surroundings⟩).1
          = ((it.take count).run ⟨.manual m.reliable, surroundings⟩).1 from
        (congrArg Prod.fst hsame).symm.trans h
      by_cases hm : 0 < m.failures
      · cases hskip : it.skipOutdated with
        | false => exact ((answersAlike_of_not_skip hskip _ _).2.2 count).1
        | true =>
            cases hoffset : it.offset with
            | some offset =>
                have hshown : Scene.shown ⟨.manual m, surroundings⟩
                    = Scene.shown ⟨.manual m.reliable, surroundings⟩ := rfl
                exact ((answersAlike_of_offset hoffset hshown).2.2 count).1
            | none =>
                -- the first step would have failed
                cases count with
                | zero => rfl
                | succ count =>
                    rw [take_succ_run_of_error (next_run_of_failing hskip hoffset hm _)] at h
                    cases h
      · exact (take_respects ignoresLog_unfailing (fun _ => it.present_respects_unfailing) count _ _
          (.inr ⟨m, surroundings, not_lt.mp hm, rfl, rfl⟩)).1

/-- What steps of an iterator that fail leave behind, and what they depend on. -/
structure Retryable (it : Iterator) : Prop where
  /-- A step that fails leaves the iterator as it was. -/
  unmoved (scene : Scene) (error : Error) :
    (it.next.run scene).1.1 = .error error → (it.next.run scene).1.2 = it
  /-- So do tries of which all fail, whatever changes before each of them. -/
  unmoved_by_tries (changes : List (Scene → Scene)) (scene : Scene) :
    (∀ answer ∈ ((it.performAll (tries changes)).run scene).1.1, ∃ error, answer = .error error) →
      ((it.performAll (tries changes)).run scene).1.2 = it
  /-- Where local time is needed and the clock is to fail some number of times, so many steps fail, and
  the one after them is what the first would have been without the failures. -/
  retried (times : Nat) (m : ManualClock) (surroundings : Surroundings) :
    it.skipOutdated = true → it.offset = none → m.failures = times →
      (it.performAll (List.replicate (times + 1) .next)).run ⟨.manual m, surroundings⟩
        = match it.next.run ⟨.manual m.reliable, surroundings⟩ with
          | ((answer, last), scene) =>
              ((List.replicate times (.error ManualClock.failure) ++ [answer], last),
                scene.lookedUp times)
  /-- Where the step after `j` others fails, the iterator is at the last that these have found, and they
  have found the same as where the clock does not fail. -/
  take_interrupted (count : Nat) (scene scene' : Scene) (error : Error) (last : Iterator) :
    (it.take count).run scene = ((.error error, last), scene') →
      ∃ j < count, ∃ ts reached, (it.take j).run scene = ((.ok ts, last), reached)
        ∧ ts.length = j ∧ last.current = ts.getLastD it.current
        ∧ last.next.run reached = ((.error error, last), scene')
        ∧ ((it.take j).run scene.reliable).1.1 = .ok ts
  /-- The same where something changes before each step; the steps before the failure have found what
  they find where it does not come to it. -/
  takeAmid_interrupted (changes : List (Scene → Scene)) (scene scene' : Scene) (error : Error)
      (last : Iterator) :
    (it.takeAmid changes).run scene = ((.error error, last), scene') →
      ∃ before change after ts reached, changes = before ++ change :: after
        ∧ (it.takeAmid before).run scene = ((.ok ts, last), reached)
        ∧ ts.length = before.length ∧ last.current = ts.getLastD it.current
        ∧ last.next.run (change reached) = ((.error error, last), scene')
        ∧ ∀ others us, ((it.takeAmid (before ++ others)).run scene).1.1 = .ok us →
            us.take before.length = ts
  /-- If what is past is not skipped, nothing but the log is used. -/
  unskipping (scene other : Scene) : it.skipOutdated = false → it.AnswersAlike scene other
  /-- With an assumed offset, nothing is used but the log and what the clock shows. -/
  assuming (scene other : Scene) (offset : Offset) :
    it.offset = some offset → scene.shown = other.shown → it.AnswersAlike scene other

/-- Whatever makes a step of an iterator fail, it can be tried again. -/
theorem retryable (it : Iterator) : it.Retryable where
  unmoved _ _ := snd_next_run_of_error
  unmoved_by_tries := snd_performAll_tries_run
  retried times _ surroundings hskip hoffset hm :=
    performAll_nexts_run hskip hoffset times hm surroundings
  take_interrupted count scene scene' error last h := by
    rw [take_run_eq_takeAmid] at h
    obtain ⟨before, change, after, ts, reached, hchanges, hbefore, hlength, hcurrent, hlast⟩ :=
      exists_interruption h
    have hid : ∀ f ∈ before ++ change :: after, f = id := fun f hf =>
      List.eq_of_mem_replicate (hchanges ▸ hf)
    have hcount : count = before.length + (after.length + 1) := by
      rw [← List.length_replicate (n := count), hchanges, List.length_append, List.length_cons]
    have htake : (it.take before.length).run scene = ((.ok ts, last), reached) := by
      rw [take_run_eq_takeAmid,
        ← List.eq_replicate_of_mem fun f hf => hid f (List.mem_append_left _ hf)]
      exact hbefore
    rw [hid change (List.mem_append_right _ List.mem_cons_self)] at hlast
    exact ⟨before.length, by omega, ts, reached, htake, hlength, hcurrent, hlast,
      take_run_reliable (by rw [htake])⟩
  takeAmid_interrupted changes scene scene' error last h := by
    obtain ⟨before, change, after, ts, reached, hchanges, hbefore, hlength, hcurrent, hlast⟩ :=
      exists_interruption h
    refine ⟨before, change, after, ts, reached, hchanges, hbefore, hlength, hcurrent, hlast, ?_⟩
    intro others us hus
    exact take_of_takeAmid_append_run (by rw [hbefore]) hus
  unskipping scene other hskip := answersAlike_of_not_skip hskip scene other
  assuming _ _ _ hoffset hshown := answersAlike_of_offset hoffset hshown

/-- At 6 PM on Mondays, against a clock that is to fail twice: the third step finds the 14th of June
2021. -/
example (surroundings : Surroundings) :
    let it : Iterator :=
      ⟨.single ⟨[.onTheHour 18], some [⟨.monday, none⟩], none, by decide, by decide⟩,
        ⟨⟨737950, by decide, by decide⟩, .onTheHour 13, .utc⟩, true, none, false⟩
    let clock : ManualClock := ⟨⟨⟨737951, by decide, by decide⟩, .onTheHour 12, some .utc⟩, 2, 0⟩
    ((it.performAll [.next, .next, .next]).run ⟨.manual clock, surroundings⟩).1.1
      = [.error ManualClock.failure, .error ManualClock.failure,
        .ok ⟨⟨737955, by decide, by decide⟩, .onTheHour 18, .utc⟩] := by
  cbv

/-- At the end of the calendar two of three steps are made. -/
example (scene : Scene) :
    (((⟨.single ⟨[.onTheHour 18], none, none, by decide, by decide⟩,
        ⟨⟨3652052, by decide, by decide⟩, .onTheHour 12, .utc⟩, false, none, false⟩ :
          Iterator).take 3).run scene).1.2.current
      = ⟨⟨3652053, by decide, by decide⟩, .onTheHour 18, .utc⟩ := by
  cbv

end Iterator

end Timetable
