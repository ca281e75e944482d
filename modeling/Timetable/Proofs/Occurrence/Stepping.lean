import Timetable.Occurrence.Iterator
import Timetable.Proofs.Occurrence.Coverage

/-! # What one step of an iterator does

`Iterator.choose` takes its cursor, finds the earliest candidate after it (`Plan.nextAfter?`) and tells
the log; what it finds depends on the cursor alone (`Iterator.choose_run`).  `Iterator.next` moves there
or leaves the iterator as it is (`Iterator.next_run`), and `Iterator.take` goes on from there
(`Iterator.take_succ_run`).  An iterator that does not skip what is past steps from its own cursor
(`Iterator.next_run_of_nextAfter?`). -/

namespace Timetable

theorem run_bind_of_run {α β : Type} {x : StateM Scene α} {f : α → StateM Scene β} {a : α}
    {scene scene' : Scene} (h : x.run scene = (a, scene')) :
    (x >>= f).run scene = (f a).run scene' := by
  change (f (x.run scene).1).run (x.run scene).2 = _
  rw [h]

theorem orOutOfCalendar_eq_ok_iff {α : Type} {x : Option α} {a : α} :
    orOutOfCalendar x = .ok a ↔ x = some a := by
  cases x <;> simp [orOutOfCalendar]

namespace Action

/-- An action is carried out before the next one, unless it fails. -/
theorem run_bind {σ α β : Type} (x : ExceptT Error (StateM σ) α)
    (f : α → ExceptT Error (StateM σ) β) (s : σ) :
    ExceptT.run (x >>= f) s = match ExceptT.run x s with
      | (.ok a, s') => ExceptT.run (f a) s'
      | (.error error, s') => (.error error, s') := by
  change (do let (a, s) ← x s; ExceptT.bindCont f a s : Id _) = _
  simp only [ExceptT.run]
  cases x s with
  | mk result s' => cases result <;> rfl

theorem run_bind_of_ok {σ α β : Type} {x : ExceptT Error (StateM σ) α}
    {f : α → ExceptT Error (StateM σ) β} {a : α} {s s' : σ} (h : ExceptT.run x s = (.ok a, s')) :
    ExceptT.run (x >>= f) s = ExceptT.run (f a) s' := by
  rw [run_bind, h]

theorem run_lift {σ α : Type} (x : Except Error α) (s : σ) :
    ExceptT.run (liftM x : ExceptT Error (StateM σ) α) s = (x, s) := by
  cases x <;> rfl

end Action

namespace Plan

/-- The earliest candidate after a cursor, and of several equally early ones the first. -/
def nextAfter? (p : Plan) (cursor : Instant) : Option Instant :=
  (p.candidates? cursor).bind earliest?

theorem candidates?_single (b : Block) (cursor : Instant) :
    (single b).candidates? cursor = b.candidates? cursor := by
  rw [candidates?, blocks]
  cases h : b.candidates? cursor <;> simp [h]

/-- What comes next is a candidate of one of the blocks. -/
theorem mem_of_nextAfter? {p : Plan} {cursor t : Instant} (h : p.nextAfter? cursor = some t) :
    ∃ b ∈ p.blocks, ∃ cs, b.candidates? cursor = some cs ∧ t ∈ cs := by
  obtain ⟨cs, hcs, ht⟩ := Option.bind_eq_some_iff.mp h
  obtain ⟨hall, rfl⟩ := mapM_flatten_eq_some_iff.mp hcs
  obtain ⟨b, hb, hmem⟩ := List.mem_flatMap.mp (mem_of_earliest? ht)
  obtain ⟨found, hfound⟩ := hall b hb
  rw [hfound] at hmem
  exact ⟨b, hb, found, hfound, hmem⟩

end Plan

namespace Iterator

/-- The iterator, moved to an instant that it has found. -/
def movedTo (it : Iterator) (t : Instant) : Iterator :=
  { it with current := t, reached := true }

theorem cursor?_movedTo (it : Iterator) (t : Instant) : (it.movedTo t).cursor? = some t :=
  cursor?_of_reached rfl

/-- The cursor is the current instant, at the assumed offset if there is one. -/
theorem position_of_cursor? {it : Iterator} {cursor : Instant} (h : it.cursor? = some cursor) :
    cursor.position = it.current.position := by
  unfold cursor? at h
  split at h
  · split at h
    · rw [Option.some.inj h]
    · exact (Instant.inOffset?_eq_some_iff.mp h).2.2
  · rw [Option.some.inj h]

theorem choose_run (it : Iterator) (scene : Scene) :
    (it.choose.run scene).1 = match it.start.run scene with
      | (.error error, _) => .error error
      | (.ok cursor, _) => orOutOfCalendar (it.plan.nextAfter? cursor) := by
  rw [choose, Action.run_bind]
  cases it.start.run scene with
  | mk result scene' =>
      cases result with
      | error error => rfl
      | ok cursor =>
          simp only [Action.run_bind, Action.run_lift, Plan.nextAfter?]
          cases it.plan.candidates? cursor with
          | none => rfl
          | some cs =>
              simp only [orOutOfCalendar, Option.bind_some]
              cases earliest? cs <;> rfl

/-- A step looks after its cursor or, if it skips what is past, after the current instant where that is
later. -/
theorem fst_start_run (it : Iterator) (scene : Scene) :
    (it.start.run scene).1 = match it.cursor? with
      | none => .error .outOfCalendar
      | some cursor =>
          if it.skipOutdated then
            (it.present.run scene).1.map fun now => if cursor < now then now else cursor
          else .ok cursor := by
  rw [start, Action.run_bind, Action.run_lift]
  cases it.cursor? with
  | none => rfl
  | some cursor =>
      simp only [orOutOfCalendar]
      split
      · rw [Action.run_bind]
        cases it.present.run scene with
        | mk result scene' =>
            cases result with
            | error error => rfl
            | ok now =>
                simp only [Except.map]
                split <;> rfl
      · rfl

theorem exists_cursor_of_start {it : Iterator} {scene : Scene} {c : Instant}
    (h : (it.start.run scene).1 = .ok c) : ∃ cursor, it.cursor? = some cursor
      ∧ (c = cursor ∨ (it.present.run scene).1 = .ok c ∧ cursor < c) := by
  rw [fst_start_run] at h
  cases hcursor : it.cursor? with
  | none => rw [hcursor] at h; cases h
  | some cursor =>
      refine ⟨cursor, rfl, ?_⟩
      rw [hcursor] at h
      simp only at h
      split at h
      · cases hpresent : (it.present.run scene).1 with
        | error error => rw [hpresent] at h; cases h
        | ok now =>
            rw [hpresent] at h
            -- what is past is skipped only towards a later instant
            have hc : (if cursor < now then now else cursor) = c := Except.ok.inj h
            split at hc
            · rename_i hlt
              exact .inr ⟨congrArg Except.ok hc, hc ▸ hlt⟩
            · exact .inl hc.symm
      · exact .inl (Except.ok.inj h).symm

theorem start_run_of_not_skip {it : Iterator} (h : it.skipOutdated = false) (scene : Scene) :
    it.start.run scene = (orOutOfCalendar it.cursor?, scene) := by
  rw [start, Action.run_bind, Action.run_lift, h]
  cases it.cursor? <;> rfl

theorem next_run (it : Iterator) (scene : Scene) :
    it.next.run scene = match it.choose.run scene with
      | (.ok t, scene') => ((.ok t, it.movedTo t), scene')
      | (.error error, scene') => ((.error error, it), scene') := by
  cases h : it.choose.run scene with
  | mk result scene' =>
      rw [next, run_bind_of_run (x := it.choose.run) h]
      cases result <;> rfl

theorem fst_next_run (it : Iterator) (scene : Scene) :
    (it.next.run scene).1.1 = (it.choose.run scene).1 := by
  rw [next_run]
  cases it.choose.run scene with
  | mk result scene' => cases result <;> rfl

/-- A step that succeeds has taken a cursor, and has found its result after it. -/
theorem exists_start_of_next {it : Iterator} {scene : Scene} {t : Instant}
    (h : (it.next.run scene).1.1 = .ok t) :
    ∃ cursor scene', it.start.run scene = (.ok cursor, scene')
      ∧ it.plan.nextAfter? cursor = some t := by
  have hchoose := it.choose_run scene
  rw [next_run] at h
  cases hrun : it.choose.run scene with
  | mk result scene' =>
      rw [hrun] at h hchoose
      cases result with
      | error error => cases h
      | ok found =>
          obtain rfl : found = t := Except.ok.inj h
          cases hstart : it.start.run scene with
          | mk began scene'' =>
              rw [hstart] at hchoose
              cases began with
              | error error => cases hchoose
              | ok cursor =>
                  refine ⟨cursor, scene'', rfl, ?_⟩
                  simp only at hchoose
                  cases hnext : it.plan.nextAfter? cursor with
                  | none => rw [hnext] at hchoose; cases hchoose
                  | some u => rw [hnext] at hchoose; cases hchoose; rfl

theorem exists_nextAfter?_of_next {it : Iterator} {scene : Scene} {t : Instant}
    (h : (it.next.run scene).1.1 = .ok t) : ∃ cursor, it.plan.nextAfter? cursor = some t := by
  obtain ⟨cursor, -, -, hnext⟩ := exists_start_of_next h
  exact ⟨cursor, hnext⟩

/-- A step that fails leaves the iterator as it is, and one that succeeds moves it. -/
theorem snd_next_run (it : Iterator) (scene : Scene) :
    (it.next.run scene).1.2 = match (it.next.run scene).1.1 with
      | .ok t => it.movedTo t
      | .error _ => it := by
  rw [next_run]
  cases it.choose.run scene with
  | mk result scene' => cases result <;> rfl

theorem next_run_of_nextAfter? {it : Iterator} {cursor t : Instant} (hskip : it.skipOutdated = false)
    (hcursor : it.cursor? = some cursor) (hnext : it.plan.nextAfter? cursor = some t)
    (scene : Scene) : ∃ scene', it.next.run scene = ((.ok t, it.movedTo t), scene') := by
  have hchoose := it.choose_run scene
  rw [start_run_of_not_skip hskip, hcursor] at hchoose
  simp only [orOutOfCalendar, hnext] at hchoose
  rw [next_run]
  cases hrun : it.choose.run scene with
  | mk result scene' =>
      rw [hrun] at hchoose
      obtain rfl : result = .ok t := hchoose
      exact ⟨scene', rfl⟩

/-- Where the calendar ends before the next occurrence, a step fails and moves nothing. -/
theorem next_run_of_eq_none {it : Iterator} (hskip : it.skipOutdated = false)
    (hnext : it.cursor?.bind it.plan.nextAfter? = none) (scene : Scene) :
    ∃ scene', it.next.run scene = ((.error .outOfCalendar, it), scene') := by
  have hchoose := it.choose_run scene
  rw [start_run_of_not_skip hskip] at hchoose
  rw [next_run]
  cases hrun : it.choose.run scene with
  | mk result scene' =>
      rw [hrun] at hchoose
      suffices hresult : result = .error .outOfCalendar by
        rw [hresult]
        exact ⟨scene', rfl⟩
      cases hcursor : it.cursor? with
      | none =>
          rw [hcursor] at hchoose
          exact hchoose
      | some cursor =>
          rw [hcursor] at hchoose hnext
          rw [Option.bind_some] at hnext
          simp only [orOutOfCalendar, hnext] at hchoose
          exact hchoose

theorem take_succ_run {it moved : Iterator} {scene scene' : Scene} {t : Instant}
    (h : it.next.run scene = ((.ok t, moved), scene')) (count : Nat) :
    (it.take (count + 1)).run scene = match (moved.take count).run scene' with
      | ((.ok rest, last), scene'') => ((.ok (t :: rest), last), scene'')
      | ((.error error, last), scene'') => ((.error error, last), scene'') := by
  rw [take, run_bind_of_run h]
  cases hrest : (moved.take count).run scene' with
  | mk result scene'' =>
      obtain ⟨result, last⟩ := result
      rw [run_bind_of_run hrest]
      cases result <;> rfl

/-- If the first step fails, no other one is made. -/
theorem take_succ_run_of_error {it it' : Iterator} {scene scene' : Scene} {error : Error}
    (h : it.next.run scene = ((.error error, it'), scene')) (count : Nat) :
    (it.take (count + 1)).run scene = ((.error error, it'), scene') := by
  rw [take, run_bind_of_run h]
  rfl

/-- What the first step finds comes before what the steps after it find, if they do not fail. -/
theorem fst_take_succ_run_eq_map {it moved : Iterator} {scene scene' : Scene} {t : Instant}
    (h : it.next.run scene = ((.ok t, moved), scene')) (count : Nat) :
    ((it.take (count + 1)).run scene).1.1
      = ((moved.take count).run scene').1.1.map (t :: ·) := by
  rw [take_succ_run h]
  cases (moved.take count).run scene' with
  | mk result scene'' =>
      obtain ⟨result, last⟩ := result
      cases result <;> rfl

/-- What the first step finds comes before what the steps after it find. -/
theorem fst_take_succ_run {it moved : Iterator} {scene scene' : Scene} {t : Instant}
    {ts : List Instant} {count : Nat} (h : it.next.run scene = ((.ok t, moved), scene'))
    (hrest : ((moved.take count).run scene').1.1 = .ok ts) :
    ((it.take (count + 1)).run scene).1.1 = .ok (t :: ts) := by
  rw [fst_take_succ_run_eq_map h, hrest]
  rfl

/-- After the first step, the steps are those of the iterator that it has moved. -/
theorem snd_take_succ_run {it moved : Iterator} {scene scene' : Scene} {t : Instant}
    (h : it.next.run scene = ((.ok t, moved), scene')) (count : Nat) :
    ((it.take (count + 1)).run scene).1.2 = ((moved.take count).run scene').1.2 := by
  rw [take_succ_run h]
  cases (moved.take count).run scene' with
  | mk result scene'' =>
      obtain ⟨result, last⟩ := result
      cases result <;> rfl

end Iterator

end Timetable
