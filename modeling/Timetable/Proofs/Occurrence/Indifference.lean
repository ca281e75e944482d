import Timetable.Proofs.Occurrence.Stepping

/-! # What an iterator does not depend on

An action does not depend on what it does not ask for: it cannot tell apart scenes that are alike in the
rest, and leaves them alike (`Action.Respects`).  This goes from actions to the steps of an iterator
(`Iterator.next_respects`, `Iterator.take_respects`).  No step depends on how often a manual clock has
been asked (`Iterator.present_respects_askedMore`); one with an assumed offset asks for nothing but what
the clock shows (`Iterator.answersAlike_of_offset`), and one that does not skip what is past asks for
nothing (`Iterator.answersAlike_of_not_skip`). -/

namespace Timetable

/-- The clock, with no failure to come. -/
def ManualClock.reliable (m : ManualClock) : ManualClock :=
  { m with failures := 0 }

namespace Scene

/-- What the clock shows. -/
def shown (s : Scene) : Moment :=
  s.clock.shown s.surroundings.host

/-- The scene after one more event. -/
def logged (s : Scene) (event : LogEvent) : Scene :=
  { s with surroundings := { s.surroundings with log := s.surroundings.log.push event } }

/-- The scenes differ in their logs at most. -/
def SameButLog (s t : Scene) : Prop :=
  s.clock = t.clock ∧ s.surroundings.host = t.surroundings.host
    ∧ s.surroundings.settings = t.surroundings.settings

/-- The scene after more questions to a manual clock for the local offset. -/
def lookedUp (times : Nat) (s : Scene) : Scene :=
  match s.clock with
  | .system _ => s
  | .manual m => { s with clock := .manual { m with lookups := m.lookups + times } }

/-- The scene in which a manual clock has no failure to come. -/
def reliable (s : Scene) : Scene :=
  match s.clock with
  | .system _ => s
  | .manual m => { s with clock := .manual m.reliable }

theorem SameButLog.refl (s : Scene) : s.SameButLog s :=
  ⟨rfl, rfl, rfl⟩

theorem SameButLog.shown_eq {s t : Scene} (h : s.SameButLog t) : s.shown = t.shown := by
  rw [shown, shown, h.1, h.2.1]

end Scene

/-! ### Actions -/

namespace Action

/-- In related scenes the action has the same result, and what it leaves are related scenes. -/
def Respects {α : Type} (R : Scene → Scene → Prop) (x : Action α) : Prop :=
  ∀ s t, R s t → (x.run s).1 = (x.run t).1 ∧ R (x.run s).2 (x.run t).2

/-- Scenes stay related when an event is added to their logs. -/
def IgnoresLog (R : Scene → Scene → Prop) : Prop :=
  ∀ s t event, R s t → R (s.logged event) (t.logged event)

variable {α β : Type} {R : Scene → Scene → Prop}

namespace Respects

theorem lift (x : Except Error α) : Respects R (liftM x) := by
  intro s t h
  rw [run_lift, run_lift]
  exact ⟨rfl, h⟩

theorem pure (a : α) : Respects R (Pure.pure a) :=
  fun _ _ h => ⟨rfl, h⟩

theorem bind {x : Action α} {f : α → Action β} (hx : Respects R x) (hf : ∀ a, Respects R (f a)) :
    Respects R (x >>= f) := by
  intro s t h
  obtain ⟨hresult, hscene⟩ := hx s t h
  rw [run_bind, run_bind]
  cases hs : x.run s with
  | mk result s' =>
      cases ht : x.run t with
      | mk result' t' =>
          rw [hs, ht] at hresult hscene
          obtain rfl : result = result' := hresult
          cases result with
          | error error => exact ⟨rfl, hscene⟩
          | ok a => exact hf a s' t' hscene

theorem report (hlog : IgnoresLog R) (severity : Severity) (message : String) :
    Respects R (Action.report severity message) :=
  fun s t h => ⟨rfl, hlog s t ⟨severity, message⟩ h⟩

end Respects

end Action

namespace Clock

theorem now_run (offset : Offset) (scene : Scene) :
    (now offset).run scene
      = (scene.shown.assumingUtc.bind fun i => orOutOfCalendar (i.inOffset? offset), scene) := by
  change ExceptT.run (liftM scene.shown.assumingUtc >>= _ : Action Instant) scene = _
  rw [Action.run_bind, Action.run_lift]
  cases scene.shown.assumingUtc with
  | error error => rfl
  | ok i => exact Action.run_lift _ scene

theorem localOffset_run_manual (m : ManualClock) (surroundings : Surroundings) :
    localOffset.run ⟨.manual m, surroundings⟩
      = (m.localOffset.1, ⟨.manual m.localOffset.2, surroundings⟩) :=
  Action.run_lift m.localOffset.1 _

variable {R : Scene → Scene → Prop}

theorem respects_now (hshown : ∀ s t, R s t → s.shown = t.shown) (offset : Offset) :
    (now offset).Respects R := by
  intro s t h
  rw [now_run, now_run, hshown s t h]
  exact ⟨rfl, h⟩

end Clock

/-! ### Steps -/

namespace Iterator

variable {it : Iterator}

section respects

variable {R : Scene → Scene → Prop} (hlog : Action.IgnoresLog R)
include hlog

theorem start_respects (hpresent : it.skipOutdated = true → it.present.Respects R) :
    it.start.Respects R := by
  refine .bind (.lift _) fun cursor => ?_
  split
  · rename_i hskip
    refine .bind (hpresent hskip) fun now => ?_
    split
    · exact .bind (.report hlog _ _) fun _ => .pure _
    · exact .pure _
  · exact .pure _

theorem choose_respects (hpresent : it.skipOutdated = true → it.present.Respects R) :
    it.choose.Respects R := by
  refine .bind (start_respects hlog hpresent) fun cursor => ?_
  refine .bind (.lift _) fun candidates => ?_
  refine .bind (.lift _) fun next => ?_
  exact .bind (.report hlog _ _) fun _ => .pure _

theorem next_respects (hpresent : it.skipOutdated = true → it.present.Respects R) (s t : Scene)
    (h : R s t) :
    (it.next.run s).1 = (it.next.run t).1 ∧ R (it.next.run s).2 (it.next.run t).2 := by
  obtain ⟨hresult, hscene⟩ := choose_respects hlog hpresent s t h
  rw [next_run, next_run]
  cases hs : it.choose.run s with
  | mk result s' =>
      cases ht : it.choose.run t with
      | mk result' t' =>
          rw [hs, ht] at hresult hscene
          obtain rfl : result = result' := hresult
          cases result <;> exact ⟨rfl, hscene⟩

theorem take_respects (hpresent : it.skipOutdated = true → it.present.Respects R) (count : Nat)
    (s t : Scene) (h : R s t) :
    ((it.take count).run s).1 = ((it.take count).run t).1
      ∧ R ((it.take count).run s).2 ((it.take count).run t).2 := by
  induction count generalizing it s t with
  | zero => exact ⟨rfl, h⟩
  | succ count ih =>
      obtain ⟨hresult, hscene⟩ := next_respects hlog hpresent s t h
      cases hs : it.next.run s with
      | mk result s' =>
          cases ht : it.next.run t with
          | mk result' t' =>
              rw [hs, ht] at hresult hscene
              obtain rfl : result = result' := hresult
              obtain ⟨answer, moved⟩ := result
              cases answer with
              | error error =>
                  rw [take_succ_run_of_error hs, take_succ_run_of_error ht]
                  exact ⟨rfl, hscene⟩
              | ok found =>
                  have hmoved := it.snd_next_run s
                  rw [hs] at hmoved
                  obtain rfl : moved = it.movedTo found := hmoved
                  have hpresent' : (it.movedTo found).skipOutdated = true →
                      (it.movedTo found).present.Respects R := hpresent
                  obtain ⟨hrest, hlast⟩ := ih hpresent' s' t' hscene
                  rw [take_succ_run hs, take_succ_run ht]
                  cases hs' : ((it.movedTo found).take count).run s' with
                  | mk rest s'' =>
                      cases ht' : ((it.movedTo found).take count).run t' with
                      | mk rest' t'' =>
                          rw [hs', ht'] at hrest hlast
                          obtain rfl : rest = rest' := hrest
                          obtain ⟨rest, last⟩ := rest
                          cases rest <;> exact ⟨rfl, hlast⟩

end respects

/-- Scenes that are as two given ones but for their logs. -/
def Beside (a b : Scene) (s t : Scene) : Prop :=
  s.SameButLog a ∧ t.SameButLog b

theorem ignoresLog_beside (a b : Scene) : Action.IgnoresLog (Beside a b) :=
  fun _ _ _ h => h

theorem present_respects_beside {offset : Offset} (hoffset : it.offset = some offset) {a b : Scene}
    (hshown : a.shown = b.shown) : it.present.Respects (Beside a b) := by
  rw [present, hoffset]
  refine Clock.respects_now ?_ offset
  rintro s t ⟨hs, ht⟩
  rw [hs.shown_eq, ht.shown_eq, hshown]

/-- A scene with a manual clock, and the one where the clock has been asked more often. -/
def AskedMore (times : Nat) (s t : Scene) : Prop :=
  (∃ m, s.clock = .manual m) ∧ t = s.lookedUp times

theorem ignoresLog_askedMore (times : Nat) : Action.IgnoresLog (AskedMore times) := by
  rintro ⟨clock, surroundings⟩ t event ⟨⟨m, rfl⟩, rfl⟩
  exact ⟨⟨m, rfl⟩, rfl⟩

theorem present_respects_askedMore (hoffset : it.offset = none) (times : Nat) :
    it.present.Respects (AskedMore times) := by
  rw [present, hoffset]
  refine .bind ?_ fun offset => Clock.respects_now ?_ offset
  · rintro ⟨clock, surroundings⟩ t ⟨⟨m, rfl⟩, rfl⟩
    rw [Scene.lookedUp, Clock.localOffset_run_manual, Clock.localOffset_run_manual,
      ManualClock.localOffset, ManualClock.localOffset]
    split
    · exact ⟨rfl, ⟨_, rfl⟩, by simp [Scene.lookedUp, Nat.add_right_comm]⟩
    · exact ⟨rfl, ⟨_, rfl⟩, by simp [Scene.lookedUp, Nat.add_right_comm]⟩
  · rintro ⟨clock, surroundings⟩ t ⟨⟨m, rfl⟩, rfl⟩
    rfl

/-- The same scene, or the one with a reliable clock where the clock does not fail anyway. -/
def Unfailing (s t : Scene) : Prop :=
  s = t ∨ ∃ m surroundings, m.failures ≤ 0 ∧ s = ⟨.manual m, surroundings⟩
    ∧ t = ⟨.manual m.reliable, surroundings⟩

theorem ignoresLog_unfailing : Action.IgnoresLog Unfailing := by
  rintro s t event (rfl | ⟨m, surroundings, hm, rfl, rfl⟩)
  · exact .inl rfl
  · exact .inr ⟨m, _, hm, rfl, rfl⟩

theorem present_respects_unfailing (it : Iterator) : it.present.Respects Unfailing := by
  have hshown : ∀ s t, Unfailing s t → s.shown = t.shown := by
    rintro s t (rfl | ⟨m, surroundings, hm, rfl, rfl⟩) <;> rfl
  unfold present
  cases it.offset with
  | some offset => exact Clock.respects_now hshown offset
  | none =>
      refine .bind ?_ fun offset => Clock.respects_now hshown offset
      rintro s t (rfl | ⟨m, surroundings, hm, rfl, rfl⟩)
      · exact ⟨rfl, .inl rfl⟩
      · have hreliable : ¬ 0 < m.reliable.failures := by simp [ManualClock.reliable]
        rw [Clock.localOffset_run_manual, Clock.localOffset_run_manual, ManualClock.localOffset,
          ManualClock.localOffset, if_neg (by omega), if_neg hreliable]
        exact ⟨rfl, .inr ⟨{ m with lookups := m.lookups + 1 }, surroundings, hm, rfl, rfl⟩⟩

/-- The iterator answers the same in both scenes, whatever becomes of it, and leaves the first as it is
but for its log. -/
def AnswersAlike (it : Iterator) (scene other : Scene) : Prop :=
  (it.next.run scene).1 = (it.next.run other).1 ∧ (it.next.run scene).2.SameButLog scene
    ∧ ∀ count, ((it.take count).run scene).1 = ((it.take count).run other).1
      ∧ ((it.take count).run scene).2.SameButLog scene

theorem answersAlike {scene other : Scene}
    (hpresent : it.skipOutdated = true → it.present.Respects (Beside scene other)) :
    it.AnswersAlike scene other := by
  have hlog := ignoresLog_beside scene other
  have hbeside : Beside scene other scene other := ⟨.refl scene, .refl other⟩
  obtain ⟨hnext, hscene, -⟩ := next_respects hlog hpresent scene other hbeside
  refine ⟨hnext, hscene, fun count => ?_⟩
  obtain ⟨htake, hscene, -⟩ := take_respects hlog hpresent count scene other hbeside
  exact ⟨htake, hscene⟩

theorem answersAlike_of_not_skip (hskip : it.skipOutdated = false) (scene other : Scene) :
    it.AnswersAlike scene other :=
  answersAlike fun h => by
    rw [hskip] at h
    cases h

theorem answersAlike_of_offset {offset : Offset} (hoffset : it.offset = some offset)
    {scene other : Scene} (hshown : scene.shown = other.shown) : it.AnswersAlike scene other :=
  answersAlike fun _ => present_respects_beside hoffset hshown

end Iterator

end Timetable
