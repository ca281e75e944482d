import Timetable.Proofs.Calendar.Months
import Timetable.Proofs.Occurrence.LocalTime
import Timetable.Schedule

/-! # How the start of a schedule is written

An iterator that assumes an offset writes its cursor there before it looks for anything, so that of the
start of a schedule only the moment counts.  Two iterators over one plan whose cursors are then the same
take the same steps (`Iterator.Alike.choose_eq`).  By induction over what happens to both of them, they
answer the same in the same scenes, and as soon as they have found something there is no difference
between them any more (`Iterator.performAll_alike`); all that they find is written at the assumed
offset. -/

namespace Timetable

/-! ### Starts at an assumed offset -/

namespace Instant

variable {s t : Instant}

/-- At another offset there is no trace of the one at which an instant has been written. -/
theorem inOffset?_congr (h : s.position = t.position) (offset : Offset) :
    s.inOffset? offset = t.inOffset? offset := by
  rw [inOffset?, inOffset?, h]

/-- In the years 2 to 9998 an instant can be written at any offset. -/
theorem exists_inOffset?_of_year (h : 2 ≤ s.date.year) (h' : s.date.year ≤ 9998) (offset : Offset) :
    ∃ t, s.inOffset? offset = some t := by
  have hfirst := Date.lt_number_of_two_le_year h
  have hlast := Date.number_add_le_of_year_le h'
  exact exists_inOffset?_of_number (by omega) (by omega) offset

end Instant

/-- Schedules that are the same have the same plan, and they begin at the same moment. -/
theorem Schedule.exists_of_same {a b : Schedule} (hsame : a.same b = true)
    (haware : a.base.offset ≠ none) : ∃ s t : Instant, a.base = s.toMoment ∧ b.base = t.toMoment
      ∧ s.position = t.position ∧ a.plan = b.plan := by
  obtain ⟨⟨d, time, offset⟩, plan⟩ := a
  obtain ⟨⟨d', time', offset'⟩, plan'⟩ := b
  rw [same, Bool.and_eq_true, decide_eq_true_iff] at hsame
  obtain ⟨hbase, rfl⟩ := hsame
  cases offset with
  | none => exact absurd rfl haware
  | some o =>
      cases offset' with
      | none => cases hbase
      | some o' => exact ⟨⟨d, time, o⟩, ⟨d', time', o'⟩, rfl, rfl, eq_of_beq hbase, rfl⟩

namespace Iterator

/-- The event leaves the assumed offset as it is. -/
def Event.KeepsOffset : Event → Prop
  | .assumeOffset _ | .useLocalOffset => False
  | _ => True

/-- Two iterators over a plan assume one offset and look for occurrences after the same cursor, which is
written there. -/
structure Alike (p : Plan) (offset : Offset) (it it' : Iterator) : Prop where
  plan : it.plan = p ∧ it'.plan = p
  assumed : it.offset = some offset ∧ it'.offset = some offset
  skipOutdated : it.skipOutdated = it'.skipOutdated
  cursor : it.cursor? = it'.cursor?
  settled : it.Settled
  current : it.current.position = it'.current.position

/-- Two runs have answered the same in the same scenes, with instants at the offset and at times of the
plan, and have led to iterators that are alike, and the same one if something has been found. -/
structure RunAlike (p : Plan) (offset : Offset)
    (run run' : (List (Except Error Instant) × Iterator) × Scene) : Prop where
  answers : run.1.1 = run'.1.1
  scene : run.2 = run'.2
  alike : Alike p offset run.1.2 run'.1.2
  same : found run.1.1 ≠ [] → run.1.2 = run'.1.2
  written : ∀ t ∈ found run.1.1, t.offset = offset ∧ ∃ b ∈ p.blocks, t.time ∈ b.times

variable {p : Plan} {offset : Offset} {it it' : Iterator} {t : Instant}

/-! ### One step -/

namespace Alike

theorem present_eq (h : Alike p offset it it') : it.present = it'.present := by
  rw [present, present, h.assumed.1, h.assumed.2]

theorem choose_eq (h : Alike p offset it it') : it.choose = it'.choose := by
  have hstart : it.start = it'.start := by
    rw [start, start, h.cursor, h.skipOutdated, h.present_eq]
  rw [choose, choose, hstart, h.plan.1, h.plan.2]

/-- Where both have found the same, there is no difference between them any more. -/
theorem movedTo_eq (h : Alike p offset it it') (t : Instant) : it.movedTo t = it'.movedTo t := by
  rw [movedTo, movedTo, h.plan.1, h.plan.2, h.assumed.1, h.assumed.2, h.skipOutdated]

theorem movedTo (h : Alike p offset it it') (ht : t.offset = offset) :
    Alike p offset (it.movedTo t) (it'.movedTo t) where
  plan := h.plan
  assumed := h.assumed
  skipOutdated := h.skipOutdated
  cursor := by rw [cursor?_movedTo, cursor?_movedTo]
  settled _ o ho := ht.trans (Option.some.inj (h.assumed.1.symm.trans ho))
  current := rfl

theorem withSkipOutdated (h : Alike p offset it it') (skip : Bool) :
    Alike p offset (it.withSkipOutdated skip) (it'.withSkipOutdated skip) :=
  ⟨h.plan, h.assumed, rfl, h.cursor, h.settled, h.current⟩

end Alike

theorem found_append (answers rest : List (Except Error Instant)) :
    found (answers ++ rest) = found answers ++ found rest :=
  List.filterMap_append

/-- What is found is written at the assumed offset, at a time of day of one of the blocks. -/
theorem Alike.offset_of_next {scene : Scene} (h : Alike p offset it it')
    (ht : (it.next.run scene).1.1 = .ok t) :
    t.offset = offset ∧ ∃ b ∈ p.blocks, t.time ∈ b.times := by
  obtain ⟨c, scene', hstart, hnext⟩ := exists_start_of_next ht
  obtain ⟨-, htime⟩ := Plan.offset_of_nextAfter? hnext
  rw [h.plan.1] at htime
  exact ⟨h.settled.offset_of_next h.assumed.1 ht, htime⟩

/-! ### Runs -/

namespace RunAlike

variable {scene : Scene} {answers : List (Except Error Instant)}

theorem of_alike (h : Alike p offset it it') (scene : Scene) :
    RunAlike p offset (([], it), scene) (([], it'), scene) where
  answers := rfl
  scene := rfl
  alike := h
  same hfound := (hfound rfl).elim
  written _ ht := absurd ht List.not_mem_nil

theorem of_error (h : Alike p offset it it') (error : Error) (scene : Scene) :
    RunAlike p offset (([.error error], it), scene) (([.error error], it'), scene) where
  answers := rfl
  scene := rfl
  alike := h
  same hfound := (hfound rfl).elim
  written _ ht := absurd ht List.not_mem_nil

theorem of_ok (h : Alike p offset it it') (ht : t.offset = offset ∧ ∃ b ∈ p.blocks, t.time ∈ b.times)
    (scene : Scene) :
    RunAlike p offset (([.ok t], it.movedTo t), scene) (([.ok t], it'.movedTo t), scene) where
  answers := rfl
  scene := rfl
  alike := h.movedTo ht.1
  same _ := h.movedTo_eq t
  written u hu := by
    rw [List.mem_singleton.mp hu]
    exact ht

/-- One run after another.  After the first of them has found something, the iterators are the same one,
and so they are after the second. -/
theorem append {run run' rest rest' : (List (Except Error Instant) × Iterator) × Scene}
    (h : RunAlike p offset run run') (hrest : RunAlike p offset rest rest')
    (hsame : run.1.2 = run'.1.2 → rest = rest') :
    RunAlike p offset ((run.1.1 ++ rest.1.1, rest.1.2), rest.2)
      ((run'.1.1 ++ rest'.1.1, rest'.1.2), rest'.2) where
  answers := by rw [h.answers, hrest.answers]
  scene := hrest.scene
  alike := hrest.alike
  same hfound := by
    rw [found_append] at hfound
    by_cases hfirst : Iterator.found run.1.1 = []
    · rw [hfirst, List.nil_append] at hfound
      exact hrest.same hfound
    · change rest.1.2 = rest'.1.2
      rw [hsame (h.same hfirst)]
  written t ht := by
    rw [found_append] at ht
    exact (List.mem_append.mp ht).elim (h.written t) (hrest.written t)

end RunAlike

theorem next_alike (h : Alike p offset it it') (scene : Scene) :
    RunAlike p offset ((it.perform .next).run scene) ((it'.perform .next).run scene) := by
  have hwritten : ∀ t, (it.next.run scene).1.1 = .ok t →
      t.offset = offset ∧ ∃ b ∈ p.blocks, t.time ∈ b.times :=
    fun t ht => h.offset_of_next ht
  rw [perform_next_run, perform_next_run]
  rw [next_run] at hwritten ⊢
  rw [next_run, ← h.choose_eq]
  generalize it.choose.run scene = chosen at hwritten ⊢
  obtain ⟨result, scene'⟩ := chosen
  cases result with
  | error error => exact .of_error h error scene'
  | ok t => exact .of_ok h (hwritten t rfl) scene'

theorem attempts_alike (h : Alike p offset it it') (changes : List (Scene → Scene)) (scene : Scene) :
    RunAlike p offset ((it.attempts changes).run scene) ((it'.attempts changes).run scene) := by
  induction changes generalizing it it' scene with
  | nil => exact .of_alike h scene
  | cons change changes ih =>
      have hfirst := next_alike h (change scene)
      rw [perform_next_run, perform_next_run] at hfirst
      rw [attempts_cons_run, attempts_cons_run]
      generalize it.next.run (change scene) = run at hfirst ⊢
      generalize it'.next.run (change scene) = run' at hfirst ⊢
      obtain ⟨⟨answer, moved⟩, scene'⟩ := run
      obtain ⟨⟨answer', moved'⟩, scene''⟩ := run'
      obtain rfl : answer = answer' := (List.cons.inj hfirst.answers).1
      obtain rfl : scene' = scene'' := hfirst.scene
      cases answer with
      | error error => exact hfirst
      | ok t =>
          refine hfirst.append (ih hfirst.alike scene') fun hsame => ?_
          obtain rfl : moved = moved' := hsame
          rfl

/-- Whatever happens to both iterators, unless they are told another offset. -/
theorem perform_alike (h : Alike p offset it it') {event : Event} (hkeeps : event.KeepsOffset)
    (scene : Scene) :
    RunAlike p offset ((it.perform event).run scene) ((it'.perform event).run scene) := by
  cases event with
  | next => exact next_alike h scene
  | take changes => exact attempts_alike h changes scene
  | withSkipOutdated skip => exact .of_alike (h.withSkipOutdated skip) scene
  | assumeOffset offset => exact hkeeps.elim
  | useLocalOffset => exact hkeeps.elim
  | change f => exact .of_alike h (f scene)

theorem performAll_alike (h : Alike p offset it it') {events : List Event}
    (hkeeps : ∀ event ∈ events, event.KeepsOffset) (scene : Scene) :
    RunAlike p offset ((it.performAll events).run scene) ((it'.performAll events).run scene) := by
  induction events generalizing it it' scene with
  | nil => exact .of_alike h scene
  | cons event events ih =>
      have hfirst := perform_alike h (hkeeps event List.mem_cons_self) scene
      rw [performAll_cons_run, performAll_cons_run]
      generalize (it.perform event).run scene = run at hfirst ⊢
      generalize (it'.perform event).run scene = run' at hfirst ⊢
      obtain ⟨⟨answers, moved⟩, scene'⟩ := run
      obtain ⟨⟨answers', moved'⟩, scene''⟩ := run'
      obtain rfl : scene' = scene'' := hfirst.scene
      have hrest := ih hfirst.alike (fun event hevent => hkeeps event (List.mem_cons_of_mem _ hevent))
        scene'
      refine hfirst.append hrest fun hsame => ?_
      obtain rfl : moved = moved' := hsame
      rfl

/-- Several steps at once have the same result. -/
theorem Alike.take_run_eq (h : Alike p offset it it') (count : Nat) (scene : Scene) :
    ((it.take count).run scene).1.1 = ((it'.take count).run scene).1.1 := by
  have hattempts := (attempts_alike h (List.replicate count id) scene).answers
  rw [take_run_eq_takeAmid, take_run_eq_takeAmid, takeAmid_run, takeAmid_run]
  exact congrArg (List.mapM id) hattempts

end Iterator

/-- Two schedules that are the same begin at the same moment, however that is written.  Told to assume one
offset, and to skip what is past or not, their iterators start from the same cursor, which in the years 2 to
9998 always exists.  Whatever then happens to both of them and around them, unless they are told another
offset, they answer the same, and what they find is written at the assumed offset, at a time of day of one
of the blocks; a number of steps at once has the same result, too. -/
theorem Schedule.runAlike_of_same {a b : Schedule} (hsame : a.same b = true)
    (haware : a.base.offset ≠ none) (o : Offset) (skip : Bool) :
    ∃ i j, a.iterator = .ok i ∧ b.iterator = .ok j
      ∧ let it := (i.withSkipOutdated skip).assumeOffset o
        let it' := (j.withSkipOutdated skip).assumeOffset o
        (2 ≤ a.base.date.year → a.base.date.year ≤ 9998 →
            ∃ c, it.cursor? = some c ∧ it'.cursor? = some c ∧ c.offset = o)
          ∧ ∀ events : List Iterator.Event, (∀ event ∈ events, event.KeepsOffset) →
            ∀ scene : Scene,
              let run := (it.performAll events).run scene
              let run' := (it'.performAll events).run scene
              Iterator.RunAlike a.plan o run run'
                ∧ ∀ count, ((run.1.2.take count).run run.2).1.1 = ((run'.1.2.take count).run run'.2).1.1 := by
  obtain ⟨s, t, hs, ht, hposition, hplan⟩ := exists_of_same hsame haware
  refine ⟨⟨a.plan, s, true, none, false⟩, ⟨b.plan, t, true, none, false⟩, ?_, ?_, ?_⟩
  · rw [iterator, hs]
    rfl
  · rw [iterator, ht]
    rfl
  intro it it'
  have hcursor : it'.cursor? = s.inOffset? o := (Instant.inOffset?_congr hposition o).symm
  have halike : Iterator.Alike a.plan o it it' :=
    { plan := ⟨rfl, hplan.symm⟩
      assumed := ⟨rfl, rfl⟩
      skipOutdated := rfl
      cursor := hcursor.symm
      settled := .of_not_reached rfl
      current := hposition }
  constructor
  · intro hfirst hlast
    rw [hs] at hfirst hlast
    obtain ⟨c, hc⟩ := Instant.exists_inOffset?_of_year hfirst hlast o
    exact ⟨c, hc, hcursor.trans hc, halike.settled.offset_of_cursor? rfl hc⟩
  · intro events hkeeps scene
    have hrun := Iterator.performAll_alike halike hkeeps scene
    refine ⟨hrun, fun count => ?_⟩
    rw [← hrun.scene]
    exact hrun.alike.take_run_eq count _

/-- At 6:30 AM on the last Friday, from the 31st of July 2021, 23:00 UTC. -/
def lastFridays : Schedule :=
  ⟨⟨⟨738002, by decide, by decide⟩, .onTheHour ⟨23, by decide⟩, some .utc⟩,
    .single ⟨[⟨23400000000, by decide⟩], some [⟨.friday, some .last⟩], none, by decide, by decide⟩⟩

/-- The same, with its start written five hours ahead of UTC, on the next day. -/
def lastFridaysFromAugust : Schedule :=
  { lastFridays with
    base := ⟨⟨738003, by decide, by decide⟩, .onTheHour ⟨4, by decide⟩,
      some (.ofTime true (.onTheHour ⟨5, by decide⟩))⟩ }

/-- Five hours and a half behind UTC. -/
def behindUtc : Offset := .ofTime false ⟨19800000000, by decide⟩

/-- At this offset both lead to the 27th of August. -/
theorem Schedule.runAlike_lastFridays :
    lastFridays.same lastFridaysFromAugust = true ∧ lastFridays.base.offset ≠ none
      ∧ (∀ event ∈ [Iterator.Event.next], event.KeepsOffset)
      ∧ ∃ i j, lastFridays.iterator = .ok i ∧ lastFridaysFromAugust.iterator = .ok j ∧ i ≠ j ∧
        let run := (((i.withSkipOutdated true).assumeOffset behindUtc).performAll [.next]).run
          Iterator.tenthOfJune
        let run' := (((j.withSkipOutdated true).assumeOffset behindUtc).performAll [.next]).run
          Iterator.tenthOfJune
        Iterator.RunAlike lastFridays.plan behindUtc run run'
          ∧ run.1.1 = [.ok ⟨⟨738029, by decide, by decide⟩, ⟨23400000000, by decide⟩, behindUtc⟩] := by
  have hsame : lastFridays.same lastFridaysFromAugust = true := by decide +kernel
  have haware : lastFridays.base.offset ≠ none := nofun
  have hkeeps : ∀ event ∈ [Iterator.Event.next], event.KeepsOffset := by
    simp [Iterator.Event.KeepsOffset]
  obtain ⟨i, j, hi, hj, -, hruns⟩ := runAlike_of_same hsame haware behindUtc true
  refine ⟨hsame, haware, hkeeps, i, j, hi, hj, ?_, (hruns _ hkeeps Iterator.tenthOfJune).1, ?_⟩
  · cases hi
    cases hj
    decide +kernel
  · cases hi
    decide +kernel

end Timetable
