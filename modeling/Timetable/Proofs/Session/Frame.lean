import Timetable.Proofs.Session.Effects

/-! # Values do not interfere

Under each name of a session stands a value of its own, however it was made: a copy of an iterator moves on
without it, an iterator keeps the blocks that its schedule had when it was made, and what is added to a
schedule is added to no other one.  A step changes what its own name stands for, and a move changes no more
than where the iterator is and what its clock has counted (`Session.Frame`).  What happens to an iterator in a
session is therefore a history of this iterator alone (`Session.history_exchanges`): what it answers does not
depend on what is done to the other values, as long as it is told the same. -/

namespace Timetable

/-- To name again what has the name already changes nothing. -/
theorem Values.get?_bind_of_get? {values : Values} {name : String} {value : Value}
    (h : values.get? name = some value) (other : String) :
    (values.bind name value).get? other = values.get? other := by
  by_cases hother : other = name
  · rw [hother, get?_bind_self, h]
  · exact get?_bind_of_ne values value hother

namespace Session

/-! ### Sessions from the beginning -/

/-- The session comes of some requests, from one in which nothing has a name yet. -/
def Reachable (s : Session) : Prop :=
  ∃ host vars requests, s = (performAll requests (.ofHost host vars)).2

/-- Each schedule that has a name is there, and has no other name. -/
structure Sound (s : Session) : Prop where
  exists_schedule : ∀ name i, s.values.get? name = some (.schedule i) → i < s.world.schedules.length
  name_unique : ∀ name other i, s.values.get? name = some (.schedule i) →
    s.values.get? other = some (.schedule i) → name = other

variable {s s' : Session} {step : Step} {request : Request} {answer : Answer} {name : String}

theorem Sound.ofHost (host : Host) (vars : Variables) : (Session.ofHost host vars).Sound :=
  ⟨nofun, nofun⟩

theorem Sound.of_effect (h : s.Sound) (heffect : s.Effect step answer s') : s'.Sound := by
  cases heffect with
  | idle => exact h
  | nameless _ hw =>
      exact ⟨fun name i hi => (h.exists_schedule name i hi).trans_le hw.length_le, h.name_unique⟩
  | @naming _ target value w hw _ _ hnew _ =>
      have hlookup : ∀ name i, (s.values.bind target value).get? name = some (.schedule i) →
          (name = target ∧ s.world.schedules.length ≤ i ∧ i < w.schedules.length)
            ∨ (s.values.get? name = some (.schedule i) ∧ i < s.world.schedules.length) := by
        intro name i hi
        by_cases hname : name = target
        · subst name
          rw [Values.get?_bind_self] at hi
          exact .inl ⟨rfl, hnew i (Option.some.inj hi)⟩
        · rw [Values.get?_bind_of_ne _ _ hname] at hi
          exact .inr ⟨hi, h.exists_schedule name i hi⟩
      refine ⟨fun name i hi => ?_, fun name other i hi hother => ?_⟩
      · obtain ⟨-, -, hlt⟩ | ⟨-, hlt⟩ := hlookup name i hi
        · exact hlt
        · exact hlt.trans_le hw.length_le
      · obtain ⟨rfl, hge, -⟩ | ⟨hold, hlt⟩ := hlookup name i hi
        · obtain ⟨rfl, -⟩ | ⟨-, hlt⟩ := hlookup other i hother
          · rfl
          · exact absurd hlt hge.not_gt
        · obtain ⟨-, hge, -⟩ | ⟨hold', -⟩ := hlookup other i hother
          · exact absurd hlt hge.not_gt
          · exact h.name_unique name other i hold hold'
  | @addition left right m r a b _ hleft _ ha _ _ =>
      refine ⟨fun name i hi => ?_, fun name other i hi hother => ?_⟩
      · rw [Values.get?_bind_of_get? hleft] at hi
        simpa [World.withScheduleAt] using h.exists_schedule name i hi
      · rw [Values.get?_bind_of_get? hleft] at hi hother
        exact h.name_unique name other i hi hother

theorem perform_effect (s : Session) (request : Request) :
    s.Effect request.step (s.perform request).1 (s.perform request).2 := by
  rw [perform]
  cases s.values.firstUnbound? request.mentions with
  | none => exact s.performStep_effect request.step
  | some unbound => exact .idle _

theorem Sound.performAll (h : s.Sound) (requests : List Request) : (performAll requests s).2.Sound := by
  induction requests generalizing s with
  | nil => exact h
  | cons request requests ih => exact ih (h.of_effect (s.perform_effect request))

theorem Reachable.sound (h : s.Reachable) : s.Sound := by
  obtain ⟨host, vars, requests, rfl⟩ := h
  exact (Sound.ofHost host vars).performAll requests

/-! ### One step -/

/-- What a request leaves as it is, and what it changes. -/
structure Frame (s : Session) (request : Request) : Prop where
  /-- Every other name stands for what it stood for: an iterator has its place and its configuration. -/
  names : ∀ name, request.step.target? ≠ some name →
    (s.perform request).2.values.get? name = s.values.get? name
  /-- A step that fails gives no name. -/
  failure : (s.perform request).1.isFailed = true → (s.perform request).2.values = s.values
  /-- A schedule stays as it is, unless it is a merged one that another one is added to under this name. -/
  schedules : ∀ name i a, s.values.get? name = some (.schedule i) → s.world.schedule i = .ok a →
    (∀ right, request.step = .addTo name right → a.plan.isMerged = false) →
    (s.perform request).2.world.schedule i = .ok a
  /-- If another one is added to a merged schedule, this one gets its blocks, and nothing else is changed; if
  this fails, nothing is. -/
  addition : ∀ left right i a, request.step = .addTo left right →
    s.values.get? left = some (.schedule i) → s.world.schedule i = .ok a → a.plan.isMerged = true →
    (∀ name, (s.perform request).2.values.get? name = s.values.get? name)
      ∧ ((s.perform request).1.isFailed = true ∧ (s.perform request).2.world = s.world
        ∨ ∃ r b hne, s.values.operand right = .ok (some (.schedule r)) ∧ s.world.schedule r = .ok b
          ∧ (s.perform request).2.world
            = s.world.withScheduleAt i ⟨a.base, .merged (a.plan.blocks ++ b.plan.blocks) hne⟩)
  /-- If an iterator is moved, it does what it would do by itself in the scene of its clock: it may then be at
  another place, and the clock may have other counters. -/
  move : ∀ name m it clock, request.step.move? name = some m →
    s.values.get? name = some (.iterator it clock) → s.values.firstUnbound? request.mentions = none →
    let run := (it.move m).run (s.world.scene clock)
    (s.perform request).1 = run.1.1
      ∧ (s.perform request).2.values.get? name = some (.iterator run.1.2 clock)
      ∧ run.1.2.ConfiguredAs it
      ∧ s.world.SameButCounters clock (s.perform request).2.world
  /-- If something that is mentioned stands for nothing, nothing is changed. -/
  unbound : s.values.firstUnbound? request.mentions ≠ none →
    (s.perform request).1.isFailed = true ∧ (s.perform request).2 = s

namespace Effect

theorem get?_of_ne (h : s.Effect step answer s') (hname : step.target? ≠ some name) :
    s'.values.get? name = s.values.get? name := by
  cases h with
  | idle | nameless => rfl
  | naming _ _ htarget =>
      refine Values.get?_bind_of_ne _ _ fun hsame => hname ?_
      rw [htarget, hsame]
  | addition _ hleft => exact Values.get?_bind_of_get? hleft name

theorem values_of_isFailed (h : s.Effect step answer s') (hfailed : answer.isFailed = true) :
    s'.values = s.values := by
  cases h with
  | idle | nameless => rfl
  | naming _ hanswer =>
      rw [hanswer] at hfailed
      cases hfailed
  | addition => cases hfailed

theorem schedule_eq_ok {i : ScheduleId} {a : Schedule} (h : s.Effect step answer s') (hs : s.Sound)
    (hi : s.values.get? name = some (.schedule i)) (ha : s.world.schedule i = .ok a)
    (hsingle : ∀ right, step = .addTo name right → a.plan.isMerged = false) :
    s'.world.schedule i = .ok a := by
  cases h with
  | idle => exact ha
  | nameless _ hw | naming hw => exact hw.schedule_eq_ok ha
  | @addition left right m r c b hstep hleft _ hc hmerged _ =>
      by_cases him : i = m
      · subst i
        obtain rfl := hs.name_unique name left m hi hleft
        obtain rfl := Except.ok.inj (ha.symm.trans hc)
        rw [hsingle right hstep] at hmerged
        cases hmerged
      · rw [World.schedule_withScheduleAt_of_ne him, ha]

end Effect

theorem frame_addition {left : String} {right : Operand} {i : ScheduleId} {a : Schedule}
    (h : s.Effect step answer s') (hstep : step = .addTo left right)
    (hleft : s.values.get? left = some (.schedule i)) (ha : s.world.schedule i = .ok a)
    (hmerged : a.plan.isMerged = true) :
    (∀ name, s'.values.get? name = s.values.get? name)
      ∧ (answer.isFailed = true ∧ s'.world = s.world
        ∨ ∃ r b hne, s.values.operand right = .ok (some (.schedule r)) ∧ s.world.schedule r = .ok b
          ∧ s'.world
            = s.world.withScheduleAt i ⟨a.base, .merged (a.plan.blocks ++ b.plan.blocks) hne⟩) := by
  cases h with
  | idle => exact ⟨fun _ => rfl, .inl ⟨rfl, rfl⟩⟩
  | nameless _ _ hno => exact absurd hstep (hno left right)
  | naming _ _ _ _ hsingle =>
      rw [hsingle left right i a hstep hleft ha] at hmerged
      cases hmerged
  | @addition left' right' m r a' b hstep' hleft' hright ha' _ hb =>
      obtain ⟨rfl, rfl⟩ := Step.addTo.inj (hstep.symm.trans hstep')
      obtain rfl := Value.schedule.inj (Option.some.inj (hleft.symm.trans hleft'))
      obtain rfl := Except.ok.inj (ha.symm.trans ha')
      exact ⟨Values.get?_bind_of_get? hleft, .inr ⟨r, b, _, hright, hb, rfl⟩⟩

theorem perform_move {it : Iterator} {clock : ClockId} {m : Move}
    (hm : request.step.move? name = some m) (hit : s.values.get? name = some (.iterator it clock))
    (hbound : s.values.firstUnbound? request.mentions = none) :
    let run := (it.move m).run (s.world.scene clock)
    (s.perform request).1 = run.1.1
      ∧ (s.perform request).2.values.get? name = some (.iterator run.1.2 clock)
      ∧ (s.perform request).2.world = s.world.withScene clock run.2 := by
  rw [perform, hbound]
  simp only [performStep_move hm hit]
  exact ⟨trivial, Values.get?_bind_self _ _ _, trivial⟩

theorem perform_of_unbound (h : s.values.firstUnbound? request.mentions ≠ none) :
    (s.perform request).1.isFailed = true ∧ (s.perform request).2 = s := by
  obtain ⟨unbound, hunbound⟩ := Option.ne_none_iff_exists'.mp h
  rw [perform_eq_of_firstUnbound? hunbound]
  exact ⟨rfl, rfl⟩

theorem Sound.frame (hs : s.Sound) (request : Request) : s.Frame request where
  names _ hname := (s.perform_effect request).get?_of_ne hname
  failure hfailed := (s.perform_effect request).values_of_isFailed hfailed
  schedules _ _ _ hi ha hsingle := (s.perform_effect request).schedule_eq_ok hs hi ha hsingle
  addition _ _ _ _ hstep hleft ha hmerged := frame_addition (s.perform_effect request) hstep hleft ha hmerged
  move _ m it clock hm hit hbound := by
    obtain ⟨hanswer, hvalue, hworld⟩ := perform_move hm hit hbound
    have hmoved := it.onlyMoved_move m (s.world.scene clock)
    refine ⟨hanswer, hvalue, hmoved.configured, ?_⟩
    rw [hworld]
    exact World.sameButCounters_withScene hmoved.counters
  unbound := perform_of_unbound

/-! ### Many steps -/

/-- The iterator under a name, if a request moves it, with its clock and how far it is moved. -/
def moved? (s : Session) (name : String) (request : Request) : Option (Iterator × ClockId × Move) :=
  match s.values.firstUnbound? request.mentions, s.values.get? name, request.step.move? name with
  | none, some (.iterator it clock), some m => some (it, clock, m)
  | _, _, _ => none

/-- What the iterator under a name is asked for in the course of several requests, what it is told, and what
it answers. -/
def exchanges (name : String) : List Request → Session → List Exchange
  | [], _ => []
  | request :: requests, s =>
    let (answer, s') := s.perform request
    match s.moved? name request with
    | some (it, clock, m) =>
      ⟨m, it.told m.count (s.world.scene clock), answer⟩ :: exchanges name requests s'
    | none => exchanges name requests s'

/-- In the course of several requests nothing else is given the name. -/
def Keeps (name : String) : List Request → Session → Prop
  | [], _ => True
  | request :: requests, s =>
    (request.step.target? = some name →
        request.step.move? name ≠ none ∨ (s.perform request).1.isFailed = true)
      ∧ Keeps name requests (s.perform request).2

instance Keeps.decidable (name : String) :
    (requests : List Request) → (s : Session) → Decidable (s.Keeps name requests)
  | [], _ => isTrue trivial
  | request :: requests, s =>
    have := Keeps.decidable name requests (s.perform request).2
    inferInstanceAs (Decidable ((_ → _) ∧ _))

theorem moved?_eq_some {it : Iterator} {clock : ClockId} {m : Move}
    (hm : request.step.move? name = some m) (hit : s.values.get? name = some (.iterator it clock))
    (hbound : s.values.firstUnbound? request.mentions = none) :
    s.moved? name request = some (it, clock, m) := by
  rw [moved?, hbound, hit, hm]

theorem moved?_eq_none (h : s.values.firstUnbound? request.mentions ≠ none
    ∨ request.step.move? name = none) : s.moved? name request = none := by
  rw [moved?]
  split
  · rename_i hbound _ hm
    obtain h | h := h
    · exact absurd hbound h
    · rw [h] at hm
      cases hm
  · rfl

/-- A request that does not move the iterator under a name leaves it as it is. -/
theorem get?_of_not_moved {it : Iterator} {clock : ClockId}
    (hit : s.values.get? name = some (.iterator it clock))
    (hkeeps : request.step.target? = some name → (s.perform request).1.isFailed = true) :
    (s.perform request).2.values.get? name = some (.iterator it clock) := by
  rw [← hit]
  by_cases htarget : request.step.target? = some name
  · rw [(s.perform_effect request).values_of_isFailed (hkeeps htarget)]
  · exact (s.perform_effect request).get?_of_ne htarget

theorem exchanges_cons_of_moved {it : Iterator} {clock : ClockId} {m : Move} {requests : List Request}
    (hm : request.step.move? name = some m) (hit : s.values.get? name = some (.iterator it clock))
    (hbound : s.values.firstUnbound? request.mentions = none) :
    s.exchanges name (request :: requests)
      = ⟨m, it.told m.count (s.world.scene clock), ((it.move m).run (s.world.scene clock)).1.1⟩
        :: (s.perform request).2.exchanges name requests := by
  rw [exchanges, moved?_eq_some hm hit hbound, ← (perform_move hm hit hbound).1]

theorem exchanges_cons_of_not_moved {requests : List Request} (h : s.moved? name request = none) :
    s.exchanges name (request :: requests) = (s.perform request).2.exchanges name requests := by
  rw [exchanges, h]

/-- What happens in a session to the iterator under a name is a history of the iterator alone. -/
theorem history_exchanges {it : Iterator} {clock : ClockId} {requests : List Request}
    (hit : s.values.get? name = some (.iterator it clock)) (hkeeps : s.Keeps name requests) :
    ∃ last, it.History (s.exchanges name requests) last
      ∧ (performAll requests s).2.values.get? name = some (.iterator last clock) := by
  induction requests generalizing s it with
  | nil => exact ⟨it, .nil, hit⟩
  | cons request requests ih =>
      obtain ⟨hrequest, hrequests⟩ := hkeeps
      have hstays : s.moved? name request = none →
          (s.perform request).2.values.get? name = some (.iterator it clock) →
          ∃ last, it.History (s.exchanges name (request :: requests)) last
            ∧ (performAll (request :: requests) s).2.values.get? name = some (.iterator last clock) := by
        intro hmoved hit'
        rw [exchanges_cons_of_not_moved hmoved]
        exact ih hit' hrequests
      cases hm : request.step.move? name with
      | none =>
          exact hstays (moved?_eq_none (.inr hm))
            (get?_of_not_moved hit fun h => (hrequest h).resolve_left (absurd hm))
      | some m =>
          by_cases hbound : s.values.firstUnbound? request.mentions = none
          · obtain ⟨-, hmoved, -⟩ := perform_move hm hit hbound
            obtain ⟨last, hhistory, hlast⟩ := ih hmoved hrequests
            rw [exchanges_cons_of_moved hm hit hbound]
            exact ⟨last, .cons m _ hhistory, hlast⟩
          · refine hstays (moved?_eq_none (.inl hbound)) ?_
            rw [(perform_of_unbound hbound).2]
            exact hit

/-- In a session that any requests have led to, a further one, even if it fails, changes nothing but what it is
about.  And what an iterator answers does not depend on the other values: if it is asked for the same and told
the same in two runs, whatever else is done or left out in one of them, it answers the same and is at the same
place in the end. -/
theorem frame_of_reachable (hs : s.Reachable) :
    (∀ request, s.Frame request)
      ∧ ∀ (t : Session) (name : String) (it : Iterator) (clock clock' : ClockId)
          (requests others : List Request),
          s.values.get? name = some (.iterator it clock) →
          t.values.get? name = some (.iterator it clock') →
          s.Keeps name requests → t.Keeps name others →
          (s.exchanges name requests).map Exchange.question
            = (t.exchanges name others).map Exchange.question →
          s.exchanges name requests = t.exchanges name others
            ∧ ∃ last, (performAll requests s).2.values.get? name = some (.iterator last clock)
              ∧ (performAll others t).2.values.get? name = some (.iterator last clock') := by
  refine ⟨hs.sound.frame, ?_⟩
  intro t name it clock clock' requests others hs' ht hkeeps hkeeps' hquestions
  obtain ⟨last, hhistory, hlast⟩ := history_exchanges hs' hkeeps
  obtain ⟨last', hhistory', hlast'⟩ := history_exchanges ht hkeeps'
  obtain ⟨hsame, rfl⟩ := hhistory.unique hhistory' hquestions
  exact ⟨hsame, last, hlast, hlast'⟩

/-- The 14th of July 2021, 11 AM at UTC. -/
def fourteenthOfJuly : Moment :=
  ⟨⟨737985, by decide, by decide⟩, .onTheHour ⟨11, by decide⟩, some .utc⟩

/-- A schedule at 6 AM and at 5 PM; an iterator over it, and a copy of the iterator; and another schedule of
the same blocks. -/
def relatives : Session :=
  let blocks : List BlockSource :=
    [.parts [.onTheHour ⟨6, by decide⟩] none none, .parts [.onTheHour ⟨17, by decide⟩] none none]
  let requests : List Request :=
    [⟨[], .manualClock "clock" fourteenthOfJuly 0⟩,
      ⟨[], .scheduleBlocks "schedule" fourteenthOfJuly blocks⟩,
      ⟨["schedule", "clock"], .iterate "iterator" "schedule" (some "clock")⟩,
      ⟨["iterator"], .skipOutdated "copy" "iterator" false⟩,
      ⟨["schedule"], .scheduleLike "another" fourteenthOfJuly "schedule"⟩]
  (performAll requests (.ofHost ⟨fourteenthOfJuly, none⟩ [])).2

/-- The iterator is moved twice. -/
def alone : List Request :=
  [⟨["iterator"], .next "iterator"⟩, ⟨["iterator"], .next "iterator"⟩]

/-- In between, its copy is moved too, and something is added to its schedule. -/
def interleaved : List Request :=
  [⟨["schedule", "another"], .addTo "schedule" (.named "another")⟩, ⟨["copy"], .take "copy" 3⟩,
    ⟨["iterator"], .next "iterator"⟩, ⟨["copy"], .next "copy"⟩, ⟨["iterator"], .next "iterator"⟩]

/-- The iterator leads to 5 PM and to 6 AM on the next day, whatever its relatives do. -/
theorem frame_of_reachable_relatives :
    let s := relatives
    let evening : Instant := ⟨⟨737985, by decide, by decide⟩, .onTheHour 17, .utc⟩
    let morning : Instant := ⟨⟨737986, by decide, by decide⟩, .onTheHour 6, .utc⟩
    s.Reachable ∧ (∀ request, s.Frame request)
      ∧ s.Keeps "iterator" interleaved ∧ s.Keeps "iterator" alone
      ∧ s.exchanges "iterator" interleaved = s.exchanges "iterator" alone
      ∧ (s.exchanges "iterator" interleaved).map (·.answer)
        = [.next evening evening, .next morning morning] := by
  intro s evening morning
  have hs : s.Reachable := ⟨_, _, _, rfl⟩
  obtain ⟨hframe, hruns⟩ := frame_of_reachable hs
  obtain ⟨it, clock, hit⟩ : ∃ it clock, s.values.get? "iterator" = some (.iterator it clock) :=
    ⟨_, _, rfl⟩
  have hkeeps : s.Keeps "iterator" interleaved := by decide +kernel
  have hkeeps' : s.Keeps "iterator" alone := by decide +kernel
  have hquestions : (s.exchanges "iterator" interleaved).map Exchange.question
      = (s.exchanges "iterator" alone).map Exchange.question := by decide +kernel
  obtain ⟨hsame, -⟩ := hruns s "iterator" it clock clock interleaved alone hit hit hkeeps hkeeps' hquestions
  refine ⟨hs, hframe, hkeeps, hkeeps', hsame, ?_⟩
  rw [hsame]
  decide +kernel

end Session

end Timetable
