import Timetable.Proofs.Occurrence.LocalTime
import Timetable.Proofs.Occurrence.Stream

/-! # Skipping what is past

A step that skips what is past is one that does not, from the later of the cursor and the current instant
(`Iterator.fst_next_run_broughtTo`): nothing is left out but what is past.  So a step finds an instant after
both of them, and where the entries of a block name different weekdays it leaves out nothing of what comes
after both and is covered by the block (`Plan.le_of_covers`).  The step looks at the assumed offset, or at
that of the later of the two, as a cursor that has been reached is written at the offset that is assumed
(`Iterator.Settled.performAll`). -/

namespace Timetable

/-- What a block with separate entries covers after the cursor does not come before the next
occurrence. -/
theorem Plan.le_of_covers {p : Plan} {b : Block} {c t u : Instant} (h : p.nextAfter? c = some t)
    (hb : b ∈ p.blocks) (hsep : b.Separate) (hu : c < u) (ho : u.offset = c.offset)
    (hcovers : b.Covers u) : t ≤ u := by
  obtain ⟨cs, hcs, ht⟩ := Option.bind_eq_some_iff.mp h
  obtain ⟨own, hown⟩ := (candidates?_eq_some_iff.mp hcs).1 b hb
  obtain ⟨i, hi, hiu⟩ := Block.exists_candidate_le hown (Block.inOrder_of_separate hsep) hu ho hcovers
  have hti := earliest?_le ht i ((mem_candidates?_iff hcs).mpr ⟨b, hb, own, hown, hi⟩)
  exact hti.trans hiu

namespace Iterator

/-- The later of the cursor and an instant, and the cursor if they are the same moment. -/
def laterOf (it : Iterator) (now : Instant) : Instant :=
  if it.current < now then now else it.current

/-- The iterator at the later of its cursor and an instant, from where it does not skip what is past. -/
def broughtTo (it : Iterator) (now : Instant) : Iterator :=
  { it with current := it.laterOf now, skipOutdated := false }

@[simp] theorem current_broughtTo (it : Iterator) (now : Instant) :
    (it.broughtTo now).current = it.laterOf now :=
  rfl

variable {it : Iterator} {scene : Scene} {c now t : Instant}

/-! ### The current instant -/

/-- The current instant can be taken for the cursor as it is: it is written at the assumed offset. -/
theorem cursor?_of_present (hnow : (it.present.run scene).1 = .ok now) :
    cursor? { it with current := now } = some now := by
  obtain ⟨plan, current, skip, offset, reached⟩ := it
  cases offset with
  | none => rfl
  | some o =>
      rw [present, Clock.now_run] at hnow
      cases hshown : scene.shown.assumingUtc with
      | error error => rw [hshown] at hnow; cases hnow
      | ok shown =>
          rw [hshown] at hnow
          obtain ⟨hin, ho, hposition⟩ :=
            Instant.inOffset?_eq_some_iff.mp (orOutOfCalendar_eq_ok_iff.mp hnow)
          rw [← hposition] at hin
          have hsame : now.inOffset? o = some now :=
            Instant.inOffset?_eq_some_iff.mpr ⟨hin, ho, rfl⟩
          simp only [cursor?, hsame, ite_self]

theorem cursor?_broughtTo (hcursor : it.cursor? = some c)
    (hnow : (it.present.run scene).1 = .ok now) :
    (it.broughtTo now).cursor? = some (if c < now then now else c) := by
  have hlt : c < now ↔ it.current < now := by
    rw [Instant.lt_iff, Instant.lt_iff, position_of_cursor? hcursor]
  rw [broughtTo, laterOf]
  by_cases hlater : it.current < now
  · rw [if_pos hlater, if_pos (hlt.mpr hlater)]
    exact cursor?_of_present hnow
  · rw [if_neg hlater, if_neg (mt hlt.mp hlater)]
    exact hcursor

theorem le_laterOf (it : Iterator) (now : Instant) :
    it.current ≤ it.laterOf now ∧ now ≤ it.laterOf now := by
  rw [laterOf]
  split
  · rename_i hlt
    exact ⟨le_of_lt hlt, le_rfl⟩
  · rename_i hlt
    exact ⟨le_rfl, Instant.not_lt_iff.mp hlt⟩

/-! ### Steps -/

theorem fst_start_run_of_skip (hskip : it.skipOutdated = true) (hcursor : it.cursor? = some c)
    (hnow : (it.present.run scene).1 = .ok now) :
    (it.start.run scene).1 = .ok (if c < now then now else c) := by
  rw [fst_start_run, hcursor, hskip, hnow]
  rfl

/-- A step that skips what is past finds what a step finds that does not, from the later of the cursor and
the current instant, in whatever scene. -/
theorem fst_next_run_broughtTo (hskip : it.skipOutdated = true) (hcursor : it.cursor? = some c)
    (hnow : (it.present.run scene).1 = .ok now) (other : Scene) :
    ((it.broughtTo now).next.run other).1.1 = (it.next.run scene).1.1 := by
  have hstart := fst_start_run_of_skip hskip hcursor hnow
  have hbrought : ((it.broughtTo now).start.run other).1 = .ok (if c < now then now else c) := by
    rw [start_run_of_not_skip rfl, cursor?_broughtTo hcursor hnow]
    rfl
  rw [fst_next_run, fst_next_run, choose_run, choose_run]
  cases hrun : it.start.run scene with
  | mk result scene' =>
      cases hrun' : (it.broughtTo now).start.run other with
      | mk result' scene'' =>
          rw [hrun] at hstart
          rw [hrun'] at hbrought
          obtain rfl : result = .ok (if c < now then now else c) := hstart
          obtain rfl : result' = .ok (if c < now then now else c) := hbrought
          rfl

/-- Whatever has happened to an iterator since it began, if it skips what is past and the clock tells the
current instant, at the assumed offset or else at the local one, then a step that succeeds finds the same as
one from the later of the cursor and this instant that does not skip what is past.  It finds an instant after
both of them, written at the assumed offset or else at that of the later one, and of what a block with
separate entries covers at this offset nothing lies between that one and what is found. -/
theorem next_skipOutdated {began : Iterator} {events : List Event} {scene₀ : Scene}
    {answers : List (Except Error Instant)} (hbegan : began.reached = false)
    (hrun : (began.performAll events).run scene₀ = ((answers, it), scene))
    (hskip : it.skipOutdated = true) (hnow : (it.present.run scene).1 = .ok now)
    (hnext : (it.next.run scene).1.1 = .ok t) :
    (∀ other : Scene, ((it.broughtTo now).next.run other).1.1 = .ok t)
      ∧ (∀ o, it.offset = some o → now.offset = o)
      ∧ (it.offset = none → (Clock.localOffset.run scene).1 = .ok now.offset)
      ∧ now < t ∧ it.current < t
      ∧ t.offset = it.offset.getD (it.laterOf now).offset
      ∧ ∀ b ∈ it.plan.blocks, b.Separate → ∀ u : Instant, it.laterOf now < u → u < t →
          u.offset = t.offset → ¬ b.Covers u := by
  have hsettled : it.Settled := by
    have := (Settled.of_not_reached hbegan).performAll events scene₀
    rwa [hrun] at this
  obtain ⟨c, scene', hstart, hfound⟩ := exists_start_of_next hnext
  obtain ⟨cursor, hcursor, -⟩ := exists_cursor_of_start (congrArg Prod.fst hstart)
  -- the step looks after the cursor that the iterator has where it is brought to
  have hc : (it.broughtTo now).cursor? = some c := by
    have hfst := fst_start_run_of_skip hskip hcursor hnow
    rw [hstart] at hfst
    rw [cursor?_broughtTo hcursor hnow, Except.ok.inj hfst]
  have hposition := position_of_cursor? hc
  rw [current_broughtTo] at hposition
  have hlt : it.laterOf now < t := by
    rw [Instant.lt_iff, ← hposition]
    exact (Plan.isLeast_nextAfter? hfound).1.1
  obtain ⟨hcurrent, hnow'⟩ := it.le_laterOf now
  have hwritten : t.offset = c.offset := (Plan.offset_of_nextAfter? hfound).1
  refine ⟨fun other => (fst_next_run_broughtTo hskip hcursor hnow other).trans hnext,
    fun o hoffset => offset_of_present hoffset hnow, fun hoffset => ?_, lt_of_le_of_lt hnow' hlt,
    lt_of_le_of_lt hcurrent hlt, ?_, ?_⟩
  · rw [present, hoffset] at hnow
    exact Clock.localOffset_of_nowLocal hnow
  · cases hoffset : it.offset with
    | some o => exact hsettled.offset_of_next hoffset hnext
    | none =>
        rw [cursor?, broughtTo, hoffset] at hc
        rw [hwritten, ← Option.some.inj hc, Option.getD_none]
  · intro b hb hsep u hu hut ho hcovers
    have hcu : c < u := by
      rw [Instant.lt_iff, hposition]
      exact hu
    exact not_le_of_gt hut (Plan.le_of_covers hfound hb hsep hcu (ho.trans hwritten) hcovers)

/-- The 12th of June 2021, a Saturday, at 1 AM three hours ahead of UTC. -/
def saturdayAtOne : Instant :=
  ⟨⟨737953, by decide, by decide⟩, ⟨3600000000, by decide⟩, .ofTime true ⟨10800000000, by decide⟩⟩

/-- A manual clock is set to that instant. -/
def setToSaturday (scene : Scene) : Scene :=
  let now : Moment := ⟨⟨737952, by decide, by decide⟩, .onTheHour ⟨22, by decide⟩, some .utc⟩
  { scene with clock := .manual ⟨now, 0, 0⟩ }

/-- Three hours ahead of UTC, one step, and then the clock is set. -/
def untilSaturday : List Event :=
  [.assumeOffset saturdayAtOne.offset, .next, .change setToSaturday]

/-- The step has led to Friday.  When the clock shows 1 AM on Saturday, this is past already: what comes
next is the Friday after it. -/
theorem next_skipOutdated_untilSaturday :
    let run := (fridaysAndSaturdaysAtOne.performAll untilSaturday).run tenthOfJune
    ∃ t, (run.1.2.next.run run.2).1.1 = .ok t ∧ t.date.number = 737959
      ∧ fridaysAndSaturdaysAtOne.reached = false ∧ run.1.2.skipOutdated = true
      ∧ (run.1.2.present.run run.2).1 = .ok saturdayAtOne ∧ run.1.2.laterOf saturdayAtOne = saturdayAtOne
      ∧ (∀ other : Scene, ((run.1.2.broughtTo saturdayAtOne).next.run other).1.1 = .ok t)
      ∧ saturdayAtOne < t
      ∧ ∀ b ∈ run.1.2.plan.blocks, b.Separate → ∀ u : Instant, saturdayAtOne < u → u < t →
          u.offset = t.offset → ¬ b.Covers u := by
  intro run
  have hskip : run.1.2.skipOutdated = true := by decide +kernel
  have hnow : (run.1.2.present.run run.2).1 = .ok saturdayAtOne := by decide +kernel
  have hlater : run.1.2.laterOf saturdayAtOne = saturdayAtOne := by decide +kernel
  have hnext : (run.1.2.next.run run.2).1.1
      = .ok ⟨⟨737959, by decide, by decide⟩, .onTheHour 1, .ofTime true (.onTheHour 3)⟩ := by
    decide +kernel
  have hrun : (fridaysAndSaturdaysAtOne.performAll untilSaturday).run tenthOfJune
      = ((run.1.1, run.1.2), run.2) := rfl
  obtain ⟨hbrought, -, -, hlt, -, -, hnone⟩ := next_skipOutdated rfl hrun hskip hnow hnext
  rw [hlater] at hnone
  exact ⟨_, hnext, rfl, rfl, hskip, hnow, hlater, hbrought, hlt, hnone⟩

end Iterator

end Timetable
