import Timetable.Proofs.Occurrence.Asking
import Timetable.Session.Perform

/-! # Steps that move an iterator

A step may move the iterator under a name on, by one occurrence or by several (`Step.move?`); it then leaves
the iterator with its configuration, and its clock as it was but for its counters (`Session.performStep_move`).
An iterator that is moved again and again has a history: what it was asked for, what it was told, and what it
has answered (`Iterator.History`).  What it has answered follows from the rest (`Iterator.History.unique`). -/

namespace Timetable

/-- How far an iterator is moved on. -/
inductive Move where
  | next
  | take (count : Int)
deriving DecidableEq, Repr

/-- How many occurrences are asked for. -/
def Move.count : Move → Nat
  | next => 1
  | take count => count.toNat

/-- How far a step moves the iterator under a name. -/
def Step.move? (name : String) : Step → Option Move
  | .next of => if of = name then some .next else none
  | .take of count => if of = name then some (.take count) else none
  | _ => none

namespace Iterator

variable {it : Iterator} {s t : Scene} {m : Move}

/-- What is answered to a move, and where the iterator is then. -/
def move (it : Iterator) : Move → StateM Scene (Answer × Iterator)
  | .next => do
    let (result, moved) ← it.next
    let answer := match result with
      | .ok occurrence => Answer.next occurrence moved.current
      | .error error => Answer.stuck error moved.current
    return (answer, moved)
  | .take count => do
    let (result, moved) ← it.take count.toNat
    let answer := match result with
      | .ok occurrences => Answer.taken occurrences moved.current
      | .error error => Answer.stuck error moved.current
    return (answer, moved)

theorem move_next_run (it : Iterator) (s : Scene) :
    (it.move .next).run s = match it.next.run s with
      | ((.ok occurrence, moved), s') => ((.next occurrence moved.current, moved), s')
      | ((.error error, moved), s') => ((.stuck error moved.current, moved), s') := by
  cases h : it.next.run s with
  | mk result s' =>
      obtain ⟨result, moved⟩ := result
      rw [move, run_bind_of_run h]
      cases result <;> rfl

theorem move_take_run (it : Iterator) (count : Int) (s : Scene) :
    (it.move (.take count)).run s = match (it.take count.toNat).run s with
      | ((.ok occurrences, moved), s') => ((.taken occurrences moved.current, moved), s')
      | ((.error error, moved), s') => ((.stuck error moved.current, moved), s') := by
  cases h : (it.take count.toNat).run s with
  | mk result s' =>
      obtain ⟨result, moved⟩ := result
      rw [move, run_bind_of_run h]
      cases result <;> rfl

theorem onlyMoved_move (it : Iterator) (m : Move) (s : Scene) :
    OnlyMoved (it, s) (((it.move m).run s).1.2, ((it.move m).run s).2) := by
  cases m with
  | next => exact it.onlyMoved_next s
  | take count => exact it.onlyMoved_take count.toNat s

theorem fst_move_run_congr (h : it.told m.count s = it.told m.count t) :
    ((it.move m).run s).1 = ((it.move m).run t).1 := by
  cases m with
  | next =>
      have hnext := fst_next_run_congr (told_succ_inj h).1
      rw [move_next_run, move_next_run]
      generalize it.next.run s = run at hnext ⊢
      generalize it.next.run t = run' at hnext ⊢
      obtain ⟨⟨result, moved⟩, s'⟩ := run
      obtain ⟨_, t'⟩ := run'
      obtain rfl : (result, moved) = _ := hnext
      cases result <;> rfl
  | take count =>
      have htake := fst_take_run_congr count.toNat h
      rw [move_take_run, move_take_run]
      generalize (it.take count.toNat).run s = run at htake ⊢
      generalize (it.take count.toNat).run t = run' at htake ⊢
      obtain ⟨⟨result, moved⟩, s'⟩ := run
      obtain ⟨_, t'⟩ := run'
      obtain rfl : (result, moved) = _ := htake
      cases result <;> rfl

end Iterator

/-! ### In a session -/

namespace World

/-- What surrounds an iterator that goes by the clock with a number. -/
def scene (w : World) (id : ClockId) : Scene :=
  ⟨w.clock id, w.surroundings⟩

/-- The world with a clock and surroundings as they are in a scene. -/
def withScene (w : World) (id : ClockId) (scene : Scene) : World :=
  { w with clocks := w.clocks.set id scene.clock, surroundings := scene.surroundings }

theorem clock_withScene_of_ne (w : World) {id other : ClockId} (h : other ≠ id) (scene : Scene) :
    (w.withScene id scene).clock other = w.clock other := by
  rw [clock, clock, withScene, List.getD_eq_getElem?_getD, List.getD_eq_getElem?_getD,
    List.getElem?_set_ne h.symm]

/-- The second world is the first one after questions to a clock, which may have counted them; the settings may
have been read, and the log may be longer. -/
structure SameButCounters (id : ClockId) (w w' : World) : Prop where
  schedules : w'.schedules = w.schedules
  clock : (w.clock id).SameButCounters (w'.clock id)
  clocks : ∀ other ≠ id, w'.clock other = w.clock other
  host : w'.surroundings.host = w.surroundings.host
  vars : w'.surroundings.settings.vars = w.surroundings.settings.vars
  settings : ∀ settings, w.surroundings.settings.kept = some settings →
    w'.surroundings.settings.kept = some settings

theorem SameButCounters.refl (id : ClockId) (w : World) : w.SameButCounters id w :=
  ⟨rfl, .refl _, fun _ _ => rfl, rfl, rfl, fun _ h => h⟩

theorem clock_withScene_self (w : World) (id : ClockId) (scene : Scene) :
    (w.withScene id scene).clock id = if id < w.clocks.length then scene.clock else w.clock id := by
  simp only [clock, withScene, List.getD_eq_getElem?_getD, List.getElem?_set_self']
  split <;> simp_all

theorem sameButCounters_withScene {w : World} {id : ClockId} {scene : Scene}
    (h : (w.scene id).SameButCounters scene) : w.SameButCounters id (w.withScene id scene) where
  schedules := rfl
  clock := by
    rw [clock_withScene_self]
    split
    · exact h.clock
    · exact .refl _
  clocks _ hother := w.clock_withScene_of_ne hother scene
  host := h.host
  vars := h.vars
  settings := h.settings

end World

namespace Session

variable {s : Session} {name : String} {it : Iterator} {clock : ClockId} {m : Move} {step : Step}

theorem performStep_move (hmove : step.move? name = some m)
    (hit : s.values.get? name = some (.iterator it clock)) :
    let run := (it.move m).run (s.world.scene clock)
    s.performStep step = (run.1.1, ⟨s.values.bind name (.iterator run.1.2 clock),
      s.world.withScene clock run.2⟩) := by
  intro run
  cases step with
  | next of =>
      rw [Step.move?] at hmove
      split at hmove
      · subst of
        obtain rfl := Option.some.inj hmove
        rw [performStep, Step.task, Values.get, hit]
        rfl
      · cases hmove
  | take of count =>
      rw [Step.move?] at hmove
      split at hmove
      · subst of
        obtain rfl := Option.some.inj hmove
        rw [performStep, Step.task, Values.get, hit]
        rfl
      · cases hmove
  | _ => cases hmove

end Session

/-! ### Histories -/

/-- A move of an iterator: what it is asked for, what it is told, and what it answers. -/
structure Exchange where
  asked : Move
  told : List (Except Error Instant)
  answer : Answer
deriving DecidableEq, Repr

/-- The exchange without its answer. -/
def Exchange.question (e : Exchange) : Move × List (Except Error Instant) :=
  (e.asked, e.told)

namespace Iterator

/-- What is asked of an iterator and answered by it, in whatever scenes. -/
inductive History : Iterator → List Exchange → Iterator → Prop where
  | nil {it : Iterator} : History it [] it
  | cons {it last : Iterator} {es : List Exchange} (m : Move) (s : Scene)
      (rest : History ((it.move m).run s).1.2 es last) :
      History it (⟨m, it.told m.count s, ((it.move m).run s).1.1⟩ :: es) last

/-- If an iterator is asked and told the same, it answers the same. -/
theorem History.unique {it last last' : Iterator} {es es' : List Exchange} (h : History it es last)
    (h' : History it es' last') (hquestions : es.map Exchange.question = es'.map Exchange.question) :
    es = es' ∧ last = last' := by
  induction h generalizing es' with
  | nil =>
      obtain rfl := List.map_eq_nil_iff.mp hquestions.symm
      cases h'
      exact ⟨rfl, rfl⟩
  | @cons it last es m s rest ih =>
      cases h' with
      | nil => cases hquestions
      | cons m' t rest' =>
          obtain ⟨hquestion, hrest⟩ := List.cons.inj hquestions
          obtain rfl : m = m' := congrArg Prod.fst hquestion
          have htold : it.told m.count s = it.told m.count t := congrArg Prod.snd hquestion
          have hrun := fst_move_run_congr htold
          obtain ⟨rfl, rfl⟩ := ih (hrun ▸ rest') hrest
          exact ⟨by rw [htold, hrun], rfl⟩

end Iterator

end Timetable
