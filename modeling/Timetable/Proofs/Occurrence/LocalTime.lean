import Timetable.Proofs.Occurrence.Advancing
import Timetable.Proofs.Occurrence.Indifference

/-! # Whose offset an occurrence is written in

With an assumed offset, all that an iterator finds is written there (`Iterator.Settled.offset_of_next`).  An
iterator without one asks the clock for the local offset at each step, but writes what it
finds at the offset of the instant after which it has looked: the current instant, which is written at the
local offset, or the cursor if that is not earlier (`Iterator.fst_start_run_of_local`).  The cursor is where
the steps before have led, or where the iterator began, and may be written at another offset
(`Iterator.next_offset_eq_localOffset_iff`). -/

namespace Timetable

namespace Clock

variable {scene : Scene} {offset : Offset} {i : Instant}

theorem offset_of_now (h : ((now offset).run scene).1 = .ok i) : i.offset = offset := by
  rw [now_run] at h
  cases hshown : scene.shown.assumingUtc with
  | error error => rw [hshown] at h; cases h
  | ok shown =>
      rw [hshown] at h
      exact (Instant.inOffset?_eq_some_iff.mp (orOutOfCalendar_eq_ok_iff.mp h)).2.1

/-- The current instant at local time is written at the local offset. -/
theorem localOffset_of_nowLocal (h : (nowLocal.run scene).1 = .ok i) :
    (localOffset.run scene).1 = .ok i.offset := by
  rw [nowLocal, Action.run_bind] at h
  cases hoffset : localOffset.run scene with
  | mk result scene' =>
      rw [hoffset] at h
      cases result with
      | error error => cases h
      | ok offset => exact congrArg Except.ok (offset_of_now h).symm

end Clock

/-- What comes next after a cursor is written at its offset, at a time of day of one of the blocks. -/
theorem Plan.offset_of_nextAfter? {p : Plan} {cursor t : Instant} (h : p.nextAfter? cursor = some t) :
    t.offset = cursor.offset ∧ ∃ b ∈ p.blocks, t.time ∈ b.times := by
  obtain ⟨b, hb, cs, hcs, ht⟩ := mem_of_nextAfter? h
  obtain ⟨hoffset, htime, -⟩ := (Block.mem_candidates?_iff hcs).mp ht
  exact ⟨hoffset, b, hb, htime⟩

namespace Iterator

variable {it : Iterator} {scene : Scene} {t : Instant}

/-! ### Assumed offsets -/

/-- A cursor that a step has reached is written at the offset that is assumed. -/
def Settled (it : Iterator) : Prop :=
  it.reached = true → ∀ o, it.offset = some o → it.current.offset = o

theorem offset_of_present {now : Instant} {o : Offset} (hoffset : it.offset = some o)
    (hnow : (it.present.run scene).1 = .ok now) : now.offset = o := by
  rw [present, hoffset] at hnow
  exact Clock.offset_of_now hnow

namespace Settled

theorem of_not_reached (h : it.reached = false) : it.Settled := by
  intro hreached
  rw [h] at hreached
  cases hreached

theorem offset_of_cursor? {c : Instant} {o : Offset} (h : it.Settled) (hoffset : it.offset = some o)
    (hcursor : it.cursor? = some c) : c.offset = o := by
  cases hreached : it.reached with
  | true =>
      rw [cursor?_of_reached hreached] at hcursor
      rw [← Option.some.inj hcursor]
      exact h hreached o hoffset
  | false =>
      rw [cursor?, hoffset, hreached] at hcursor
      exact (Instant.inOffset?_eq_some_iff.mp hcursor).2.1

/-- With an assumed offset, what a step finds is written there. -/
theorem offset_of_next {o : Offset} (h : it.Settled) (hoffset : it.offset = some o)
    (ht : (it.next.run scene).1.1 = .ok t) : t.offset = o := by
  obtain ⟨c, scene', hstart, hnext⟩ := exists_start_of_next ht
  rw [(Plan.offset_of_nextAfter? hnext).1]
  obtain ⟨cursor, hcursor, rfl | ⟨hnow, -⟩⟩ := exists_cursor_of_start (congrArg Prod.fst hstart)
  · exact h.offset_of_cursor? hoffset hcursor
  · exact offset_of_present hoffset hnow

theorem next (h : it.Settled) (scene : Scene) : (it.next.run scene).1.2.Settled := by
  rw [snd_next_run]
  cases ht : (it.next.run scene).1.1 with
  | error error => exact h
  | ok t => exact fun _ o hoffset => h.offset_of_next hoffset ht

theorem performAll (h : it.Settled) (events : List Event) (scene : Scene) :
    ((it.performAll events).run scene).1.2.Settled :=
  performAll_keeps (fun _ scene h => h.next scene) (fun _ _ h => h)
    (fun _ _ _ => of_not_reached rfl) (fun _ _ => of_not_reached rfl) h events scene

end Settled

/-! ### Local time -/

/-- At local time, a step looks after the current instant, or after the cursor if that is not earlier. -/
theorem fst_start_run_of_local (hskip : it.skipOutdated = true) (hoffset : it.offset = none)
    (scene : Scene) : (it.start.run scene).1
      = (Clock.nowLocal.run scene).1.map fun now => if it.current < now then now else it.current := by
  have hcursor : it.cursor? = some it.current := by rw [cursor?, hoffset]
  have hpresent : it.present = Clock.nowLocal := by rw [present, hoffset]
  rw [fst_start_run, hcursor, hpresent, hskip]
  rfl

theorem exists_now_of_next (hskip : it.skipOutdated = true) (hoffset : it.offset = none)
    (h : (it.next.run scene).1.1 = .ok t) : ∃ now, (Clock.nowLocal.run scene).1 = .ok now
      ∧ it.plan.nextAfter? (if it.current < now then now else it.current) = some t := by
  obtain ⟨cursor, scene', hstart, hnext⟩ := exists_start_of_next h
  have hcursor := fst_start_run_of_local hskip hoffset scene
  rw [hstart] at hcursor
  cases hnow : (Clock.nowLocal.run scene).1 with
  | error error => rw [hnow] at hcursor; cases hcursor
  | ok now =>
      rw [hnow] at hcursor
      obtain rfl := Except.ok.inj hcursor
      exact ⟨now, rfl, hnext⟩

/-- Whatever has happened to an iterator, if it skips what is past and no offset is assumed, a step that
succeeds has asked the clock for the local offset.  What it finds is at a time of day of one of the blocks,
at the local offset if the current instant is later than the cursor, and otherwise at the offset of the
cursor: of the last instant that has been found, or of the one at which the iterator began.  So it is
written at the local offset exactly if the current instant is later or the cursor is written so. -/
theorem next_offset_eq_localOffset_iff {events : List Event} {answers : List (Except Error Instant)}
    {last : Iterator} {scene' : Scene}
    (hrun : (it.performAll events).run scene = ((answers, last), scene'))
    (hskip : last.skipOutdated = true) (hoffset : last.offset = none)
    (hnext : (last.next.run scene').1.1 = .ok t) :
    last.current = (found answers).getLastD it.current
      ∧ ∃ now, (Clock.nowLocal.run scene').1 = .ok now
        ∧ (Clock.localOffset.run scene').1 = .ok now.offset
        ∧ t.offset = (if last.current < now then now.offset else last.current.offset)
        ∧ (∃ b ∈ last.plan.blocks, t.time ∈ b.times)
        ∧ (t.offset = now.offset ↔ last.current < now ∨ last.current.offset = now.offset) := by
  have hcurrent := (it.advances_performAll events scene).eq_getLastD
  rw [hrun] at hcurrent
  obtain ⟨now, hnow, hcursor⟩ := exists_now_of_next hskip hoffset hnext
  obtain ⟨hwritten, htime⟩ := Plan.offset_of_nextAfter? hcursor
  refine ⟨hcurrent, now, hnow, Clock.localOffset_of_nowLocal hnow, ?_, htime, ?_⟩
  · rw [hwritten]
    split <;> rfl
  · rw [hwritten]
    by_cases hlt : last.current < now <;> simp [hlt]

/-- At 1 AM on Fridays and Saturdays, from the 10th of June 2021, 13:00 UTC. -/
def fridaysAndSaturdaysAtOne : Iterator :=
  ⟨.single ⟨[.onTheHour ⟨1, by decide⟩], some [⟨.friday, none⟩, ⟨.saturday, none⟩], none, by decide,
      by decide⟩,
    ⟨⟨737951, by decide, by decide⟩, .onTheHour ⟨13, by decide⟩, .utc⟩, true, none, false⟩

/-- A manual clock shows that instant, too. -/
def tenthOfJune : Scene :=
  let now : Moment := ⟨⟨737951, by decide, by decide⟩, .onTheHour ⟨13, by decide⟩, some .utc⟩
  ⟨.manual ⟨now, 0, 0⟩, ⟨⟨now, none⟩, .ofVariables [], #[]⟩⟩

/-- One step three hours ahead of UTC, and back to local time. -/
def threeHoursAhead : List Event :=
  [.assumeOffset (.ofTime true (.onTheHour ⟨3, by decide⟩)), .next, .useLocalOffset]

/-- The cursor that has been reached three hours ahead of UTC is later than the current instant. -/
theorem next_offset_threeHoursAhead :
    let run := (fridaysAndSaturdaysAtOne.performAll threeHoursAhead).run tenthOfJune
    ∃ t now, (run.1.2.next.run run.2).1.1 = .ok t ∧ (Clock.localOffset.run run.2).1 = .ok now.offset
      ∧ (t.offset = now.offset ↔ run.1.2.current < now ∨ run.1.2.current.offset = now.offset) := by
  intro run
  have hnext : (run.1.2.next.run run.2).1.1
      = .ok ⟨⟨737953, by decide, by decide⟩, .onTheHour 1, .ofTime true (.onTheHour 3)⟩ := by decide +kernel
  have hrun : (fridaysAndSaturdaysAtOne.performAll threeHoursAhead).run tenthOfJune
      = ((run.1.1, run.1.2), run.2) := rfl
  obtain ⟨-, now, -, hoffset, -, -, hiff⟩ :=
    next_offset_eq_localOffset_iff hrun (by decide +kernel) (by decide +kernel) hnext
  exact ⟨_, now, hnext, hoffset, hiff⟩

/-- So it is not left when the iterator follows local time again: the clock is in UTC, and what comes next
is written three hours ahead of it. -/
theorem next_after_threeHoursAhead :
    let run := (fridaysAndSaturdaysAtOne.performAll threeHoursAhead).run tenthOfJune
    run.1.2.skipOutdated = true ∧ run.1.2.offset = none
      ∧ (Clock.localOffset.run run.2).1 = .ok .utc
      ∧ (run.1.2.next.run run.2).1.1
        = .ok ⟨⟨737953, by decide, by decide⟩, .onTheHour 1, .ofTime true (.onTheHour 3)⟩ := by
  decide +kernel

end Iterator

end Timetable
