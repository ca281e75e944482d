import Timetable.Proofs.Occurrence.Stepping
import Timetable.Session.Perform

/-! # Sums of schedules

However a sum of schedules is put in parentheses, it is a new schedule that begins where the first one does
and has the blocks of all of them in order (`Addition.eval_run`); the schedules that are added stay as they
are (`World.Extends`).  A merged schedule that another one is added to stays the same one and becomes what
the sum would have been (`Session.performStep_addTo`). -/

namespace Timetable

/-! ### The schedules of a world -/

namespace World

/-- The second world has all schedules of the first one, as they are there. -/
def KeepsSchedules (w w' : World) : Prop :=
  w.schedules <+: w'.schedules

/-- The second world has further schedules, and is otherwise as the first one. -/
structure Extends (w w' : World) : Prop where
  schedules : w.schedules <+: w'.schedules
  clocks : w'.clocks = w.clocks
  surroundings : w'.surroundings = w.surroundings

variable {w w' w'' : World} {i : ScheduleId} {a : Schedule}

theorem schedule_eq_ok_iff : w.schedule i = .ok a ↔ w.schedules[i]? = some a := by
  rw [schedule]
  cases w.schedules[i]? <;> simp

theorem KeepsSchedules.schedule_eq_ok (h : w.KeepsSchedules w') (ha : w.schedule i = .ok a) :
    w'.schedule i = .ok a := by
  obtain ⟨further, hw'⟩ := h
  rw [schedule_eq_ok_iff] at ha ⊢
  rw [← hw', List.getElem?_append_left (List.getElem?_eq_some_iff.mp ha).1, ha]

namespace Extends

theorem refl (w : World) : w.Extends w :=
  ⟨List.prefix_rfl, rfl, rfl⟩

theorem trans (h : w.Extends w') (h' : w'.Extends w'') : w.Extends w'' :=
  ⟨h.schedules.trans h'.schedules, h'.clocks.trans h.clocks, h'.surroundings.trans h.surroundings⟩

theorem schedule_eq_ok (h : w.Extends w') (ha : w.schedule i = .ok a) : w'.schedule i = .ok a :=
  KeepsSchedules.schedule_eq_ok h.schedules ha

end Extends

theorem Extends.map_schedule_eq {is : List ScheduleId} {as : List Schedule} (h : w.Extends w')
    (has : is.map w.schedule = as.map .ok) : is.map w'.schedule = as.map .ok := by
  rw [← has]
  refine List.map_congr_left fun i hi => ?_
  have hmem : w.schedule i ∈ as.map .ok := has ▸ List.mem_map_of_mem hi
  obtain ⟨a, -, ha⟩ := List.mem_map.mp hmem
  rw [← ha, h.schedule_eq_ok ha.symm]

/-- The world with one more schedule. -/
def withSchedule (w : World) (a : Schedule) : World :=
  { w with schedules := w.schedules ++ [a] }

theorem extends_withSchedule (w : World) (a : Schedule) : w.Extends (w.withSchedule a) :=
  ⟨List.prefix_append _ _, rfl, rfl⟩

/-- The world in which the schedule with a number is another one. -/
def withScheduleAt (w : World) (i : ScheduleId) (a : Schedule) : World :=
  { w with schedules := w.schedules.set i a }

theorem schedule_withScheduleAt_self (h : w.schedule i = .ok a) (b : Schedule) :
    (w.withScheduleAt i b).schedule i = .ok b := by
  rw [schedule_eq_ok_iff] at h ⊢
  exact List.getElem?_set_self (List.getElem?_eq_some_iff.mp h).1

theorem schedule_withScheduleAt_of_ne {j : ScheduleId} (h : j ≠ i) (w : World) (b : Schedule) :
    (w.withScheduleAt i b).schedule j = w.schedule j := by
  rw [schedule, schedule, withScheduleAt, List.getElem?_set_ne h.symm]

theorem schedule_withSchedule (w : World) (a : Schedule) :
    (w.withSchedule a).schedule w.schedules.length = .ok a := by
  simp [schedule_eq_ok_iff, withSchedule]

end World

namespace WorldAction

variable {w : World} {i j : ScheduleId} {a b : Schedule}

theorem schedule_run (ha : w.schedule i = .ok a) : (schedule i).run w = (.ok a, w) := by
  rw [← ha]
  exact Action.run_lift (w.schedule i) w

theorem sum_run (ha : w.schedule i = .ok a) (hb : w.schedule j = .ok b) :
    (sum i j).run w = (.ok w.schedules.length, w.withSchedule (a + b)) := by
  rw [sum, Action.run_bind_of_ok (schedule_run ha), Action.run_bind_of_ok (schedule_run hb)]
  rfl

/-- A merged schedule stays the same one when another one is added to it. -/
theorem extend_run (ha : w.schedule i = .ok a) (hmerged : a.plan.isMerged = true)
    (hb : w.schedule j = .ok b) :
    (extend i j).run w = (.ok i, w.withScheduleAt i (a + b)) := by
  rw [extend, Action.run_bind_of_ok (schedule_run ha), if_pos hmerged,
    Action.run_bind_of_ok (schedule_run hb)]
  rfl

end WorldAction

/-! ### Sums of two -/

namespace Schedule

theorem add_assoc (a b c : Schedule) : a + b + c = a + (b + c) := by
  change (⟨a.base, (a.plan.append b.plan).append c.plan⟩ : Schedule)
    = ⟨a.base, a.plan.append (b.plan.append c.plan)⟩
  simp [Plan.append, Plan.blocks]

instance : Std.Associative (fun a b : Schedule => a + b) :=
  ⟨add_assoc⟩

theorem base_foldl_add (a : Schedule) (bs : List Schedule) : (bs.foldl (· + ·) a).base = a.base := by
  induction bs generalizing a with
  | nil => rfl
  | cons b bs ih => exact ih (a + b)

theorem blocks_foldl_add (a : Schedule) (bs : List Schedule) :
    (bs.foldl (· + ·) a).plan.blocks = (a :: bs).flatMap (·.plan.blocks) := by
  induction bs generalizing a with
  | nil => simp
  | cons b bs ih =>
      rw [List.foldl_cons, ih]
      simp only [List.flatMap_cons, ← List.append_assoc]
      rfl

theorem isMerged_foldl_add (a b : Schedule) (bs : List Schedule) :
    ((b :: bs).foldl (· + ·) a).plan.isMerged = true := by
  induction bs generalizing a b with
  | nil => rfl
  | cons c bs ih => exact ih (a + b) c

theorem same_self (a : Schedule) : a.same a = true := by
  have hbase : a.base.same a.base = true := by
    rw [Moment.same]
    cases a.base.instant? <;> simp [Instant.sameMoment]
  rw [same, hbase, decide_eq_true rfl]
  rfl

end Schedule

theorem Plan.exists_merged_of_isMerged {p : Plan} (h : p.isMerged = true) :
    ∃ hne, p = .merged p.blocks hne := by
  cases p with
  | single b => cases h
  | merged bs hne => exact ⟨hne, rfl⟩

/-! ### Sums in parentheses -/

/-- A sum of schedules, in parentheses. -/
inductive Addition where
  | schedule (i : ScheduleId)
  | plus (left right : Addition)

namespace Addition

/-- The schedules that are added, in order. -/
def operands : Addition → List ScheduleId
  | schedule i => [i]
  | plus left right => left.operands ++ right.operands

/-- Adds the schedules, first within the left part and then within the right one. -/
def eval : Addition → WorldAction ScheduleId
  | schedule i => return i
  | plus left right => do
    let i ← left.eval
    let j ← right.eval
    WorldAction.sum i j

theorem operands_ne_nil (e : Addition) : e.operands ≠ [] := by
  induction e with
  | schedule i => exact List.cons_ne_nil i []
  | plus left right ihl ihr => exact List.append_ne_nil_of_left_ne_nil ihl _

/-- The operands of a part are some of the schedules that are added. -/
theorem exists_cons_of_map_operands {e : Addition} {w : World} {as : List Schedule}
    (h : e.operands.map w.schedule = as.map .ok) : ∃ b bs, as = b :: bs := by
  refine List.exists_cons_of_ne_nil ?_
  rintro rfl
  exact e.operands_ne_nil (List.map_eq_nil_iff.mp h)

/-- In whatever parentheses, a sum is what comes of adding one schedule after the other to the first one,
and nothing that was there is changed. -/
theorem eval_run {e : Addition} {w : World} {a : Schedule} {as : List Schedule}
    (h : e.operands.map w.schedule = (a :: as).map .ok) :
    ∃ i w', e.eval.run w = (.ok i, w') ∧ w.Extends w' ∧ w'.schedule i = .ok (as.foldl (· + ·) a)
      ∧ (as ≠ [] → w.schedules.length ≤ i) := by
  induction e generalizing w a as with
  | schedule i =>
      obtain ⟨ha, has⟩ := List.cons.inj h
      rw [List.map_eq_nil_iff.mp has.symm]
      exact ⟨i, w, rfl, .refl w, ha, fun hne => absurd rfl hne⟩
  | plus left right ihl ihr =>
      rw [operands, List.map_append] at h
      obtain ⟨xs, ys, hxy, hl, hr⟩ := List.append_eq_map_iff.mp h
      obtain ⟨a', as', rfl⟩ := exists_cons_of_map_operands hl.symm
      obtain ⟨b, bs, rfl⟩ := exists_cons_of_map_operands hr.symm
      obtain ⟨rfl, rfl⟩ : a = a' ∧ as = as' ++ b :: bs := List.cons.inj hxy
      obtain ⟨i, w₁, hi, hw₁, hsi, -⟩ := ihl hl.symm
      obtain ⟨j, w₂, hj, hw₂, hsj, -⟩ := ihr (hw₁.map_schedule_eq hr.symm)
      refine ⟨_, _, ?_, (hw₁.trans hw₂).trans (w₂.extends_withSchedule _),
        w₂.schedule_withSchedule _, fun _ => (hw₁.trans hw₂).schedules.length_le⟩
      have hsum : as'.foldl (· + ·) a + bs.foldl (· + ·) b = (as' ++ b :: bs).foldl (· + ·) a := by
        rw [List.foldl_append, List.foldl_cons, List.foldl_assoc]
      rw [eval, Action.run_bind_of_ok hi, Action.run_bind_of_ok hj, ← hsum]
      exact WorldAction.sum_run (hw₂.schedule_eq_ok hsi) hsj

/-- In the world, the sum is a new schedule `t`, and all else stays as it is. -/
def Yields (e : Addition) (w : World) (t : Schedule) : Prop :=
  ∃ i w', e.eval.run w = (.ok i, w') ∧ w'.schedule i = .ok t ∧ w.schedules.length ≤ i ∧ w.Extends w'

theorem yields {e : Addition} {w : World} {a b : Schedule} {bs : List Schedule}
    (h : e.operands.map w.schedule = (a :: b :: bs).map .ok) :
    e.Yields w ((b :: bs).foldl (· + ·) a) := by
  obtain ⟨i, w', hrun, hextends, hi, hnew⟩ := eval_run h
  exact ⟨i, w', hrun, hi, hnew (List.cons_ne_nil b bs), hextends⟩

end Addition

/-! ### Sums in a session -/

namespace Session

variable {s : Session} {left target : String} {right : Operand} {m r : ScheduleId} {a b : Schedule}

theorem make_schedule_run {w : World} (h : w.schedule m = .ok a) :
    (Outcome.make target (.schedule m)).run w
      = (.ok ⟨.view (.schedule a), some (target, .schedule m)⟩, w) := by
  change ExceptT.run (liftM ((Value.schedule m).view w) >>= _ : WorldAction Outcome) w = _
  rw [Value.view, h]
  rfl

theorem performStep_add (hleft : s.values.get? left = some (.schedule m))
    (hright : s.values.operand right = .ok (some (.schedule r)))
    (ha : s.world.schedule m = .ok a) (hb : s.world.schedule r = .ok b) :
    s.performStep (.add target (.named left) right)
      = (.view (.schedule (a + b)), ⟨s.values.bind target (.schedule s.world.schedules.length),
          s.world.withSchedule (a + b)⟩) := by
  have hrun : ((Step.add target (.named left) right).task s.values).run s.world
      = (.ok ⟨.view (.schedule (a + b)), some (target, .schedule s.world.schedules.length)⟩,
          s.world.withSchedule (a + b)) := by
    rw [Step.task, Values.operand, Values.get, hleft, hright]
    change ExceptT.run (WorldAction.sum m r >>= _) s.world = _
    rw [Action.run_bind_of_ok (WorldAction.sum_run ha hb)]
    exact make_schedule_run (s.world.schedule_withSchedule (a + b))
  rw [performStep, hrun]

/-- A schedule is added to a merged one: it is the same schedule, and is now what the sum would be. -/
theorem performStep_addTo (hleft : s.values.get? left = some (.schedule m))
    (hright : s.values.operand right = .ok (some (.schedule r)))
    (ha : s.world.schedule m = .ok a) (hmerged : a.plan.isMerged = true)
    (hb : s.world.schedule r = .ok b) :
    s.performStep (.addTo left right)
      = (.extended (a + b) true, ⟨s.values.bind left (.schedule m),
          s.world.withScheduleAt m (a + b)⟩) := by
  have hrun : ((Step.addTo left right).task s.values).run s.world
      = (.ok ⟨.extended (a + b) true, some (left, .schedule m)⟩,
          s.world.withScheduleAt m (a + b)) := by
    rw [Step.task, Values.get, hleft, hright]
    change ExceptT.run (WorldAction.extend m r >>= _) s.world = _
    have hafter := WorldAction.schedule_run (World.schedule_withScheduleAt_self ha (a + b))
    rw [Action.run_bind_of_ok (WorldAction.extend_run ha hmerged hb), Action.run_bind_of_ok hafter,
      beq_self_eq_true]
    rfl
  rw [performStep, hrun]

theorem performStep_addTo_of_unsuitable {value : Option Value}
    (hleft : s.values.get? left = some (.schedule m)) (hright : s.values.operand right = .ok value)
    (hvalue : ∀ r, value ≠ some (.schedule r)) :
    s.performStep (.addTo left right) = (.failed .unsuitable, s) := by
  have haddend : addend value = .error .unsuitable := by
    match value with
    | none | some (.iterator _ _) | some (.clock _) => rfl
    | some (.schedule r) => exact absurd rfl (hvalue r)
  have hrun : ((Step.addTo left right).task s.values).run s.world = (.error .unsuitable, s.world) := by
    rw [Step.task, Values.get, hleft, hright]
    change ExceptT.run (liftM (addend value) >>= _ : WorldAction Outcome) s.world = _
    rw [haddend]
    rfl
  rw [performStep, hrun]

/-- Adding to the schedule under a name makes it `t`; the name still stands for it, and no other schedule is
changed, nor any other name. -/
def AddsInPlace (s : Session) (left : String) (right : Operand) (m : ScheduleId) (t : Schedule) : Prop :=
  ∃ s', s.performStep (.addTo left right) = (.extended t true, s')
    ∧ s'.values.get? left = some (.schedule m) ∧ s'.world.schedule m = .ok t
    ∧ (∀ i ≠ m, s'.world.schedule i = s.world.schedule i)
    ∧ ∀ name ≠ left, s'.values.get? name = s.values.get? name

theorem addsInPlace (hleft : s.values.get? left = some (.schedule m))
    (hright : s.values.operand right = .ok (some (.schedule r)))
    (ha : s.world.schedule m = .ok a) (hmerged : a.plan.isMerged = true)
    (hb : s.world.schedule r = .ok b) : s.AddsInPlace left right m (a + b) := by
  refine ⟨_, performStep_addTo hleft hright ha hmerged hb, s.values.get?_bind_self left _, ?_, ?_, ?_⟩
  · exact World.schedule_withScheduleAt_self ha _
  · exact fun i hi => World.schedule_withScheduleAt_of_ne hi s.world _
  · exact fun name hname => s.values.get?_bind_of_ne _ hname

end Session

/-- Two or more schedules that are added in any parentheses give a merged schedule that begins where the
first one does and has the blocks of all of them in order, so that the sums in all parentheses are the same;
no schedule is changed by this.  If a schedule is added to a merged one in place, itself perhaps, then the
merged one is what the sum would have been; what is no schedule cannot be added, and changes nothing. -/
theorem schedule_sums :
    (∀ (w : World) (e : Addition) (a b : Schedule) (bs : List Schedule),
        e.operands.map w.schedule = (a :: b :: bs).map .ok →
          ∃ t, e.Yields w t ∧ t.base = a.base
            ∧ (∃ hne, t.plan = .merged ((a :: b :: bs).flatMap (·.plan.blocks)) hne)
            ∧ ∀ e' : Addition, e'.operands = e.operands → ∃ t', e'.Yields w t' ∧ t.same t' = true)
      ∧ ∀ (s : Session) (left : String) (right : Operand) (m : ScheduleId) (a : Schedule),
          s.values.get? left = some (.schedule m) → s.world.schedule m = .ok a → a.plan.isMerged = true →
            (∀ r b, s.values.operand right = .ok (some (.schedule r)) → s.world.schedule r = .ok b →
              ∃ t, s.AddsInPlace left right m t
                ∧ ∀ target, (s.performStep (.add target (.named left) right)).1 = .view (.schedule t))
            ∧ ∀ value, s.values.operand right = .ok value → (∀ r, value ≠ some (.schedule r)) →
                s.performStep (.addTo left right) = (.failed .unsuitable, s) := by
  refine ⟨fun w e a b bs h => ?_, fun s left right m a hleft ha hmerged => ⟨fun r b hright hb => ?_, ?_⟩⟩
  · refine ⟨_, Addition.yields h, Schedule.base_foldl_add a (b :: bs), ?_, fun e' he' => ?_⟩
    · rw [← Schedule.blocks_foldl_add a (b :: bs)]
      exact Plan.exists_merged_of_isMerged (Schedule.isMerged_foldl_add a b bs)
    · exact ⟨_, Addition.yields (he' ▸ h), Schedule.same_self _⟩
  · refine ⟨a + b, Session.addsInPlace hleft hright ha hmerged hb, fun target => ?_⟩
    rw [Session.performStep_add hleft hright ha hb]
  · exact fun value hright hvalue => Session.performStep_addTo_of_unsuitable hleft hright hvalue

/-- At 9 AM on Tuesdays, from the 1st of July 2021, 12:00 UTC. -/
def tuesdays : Schedule :=
  ⟨⟨⟨737972, by decide, by decide⟩, .onTheHour ⟨12, by decide⟩, some .utc⟩,
    .single ⟨[.onTheHour ⟨9, by decide⟩], some [⟨.tuesday, none⟩], none, by decide, by decide⟩⟩

/-- At 9 AM on Saturdays and at 10 AM on Sundays, from a day later. -/
def weekends : Schedule :=
  ⟨⟨⟨737973, by decide, by decide⟩, .onTheHour ⟨12, by decide⟩, some .utc⟩,
    .merged [⟨[.onTheHour ⟨9, by decide⟩], some [⟨.saturday, none⟩], none, by decide, by decide⟩,
      ⟨[.onTheHour ⟨10, by decide⟩], some [⟨.sunday, none⟩], none, by decide, by decide⟩] (by decide)⟩

/-- A session with both of them. -/
def tuesdaysAndWeekends : Session :=
  ⟨[("tuesdays", .schedule 0), ("weekends", .schedule 1)],
    ⟨[.system none], [tuesdays, weekends], ⟨⟨tuesdays.base, none⟩, .ofVariables [], #[]⟩⟩⟩

/-- Both parentheses of a sum of three; a schedule that is added to itself; and what is no schedule. -/
theorem schedule_sums_tuesdaysAndWeekends :
    let s := tuesdaysAndWeekends
    (∃ t, (Addition.plus (.plus (.schedule 0) (.schedule 1)) (.schedule 0)).Yields s.world t
        ∧ t.base = tuesdays.base
        ∧ ∃ t', (Addition.plus (.schedule 0) (.plus (.schedule 1) (.schedule 0))).Yields s.world t'
          ∧ t.same t' = true)
      ∧ (∃ t, s.AddsInPlace "weekends" (.named "weekends") 1 t)
      ∧ s.performStep (.addTo "weekends" .plain) = (.failed .unsuitable, s) := by
  intro s
  obtain ⟨hsums, hinPlace⟩ := schedule_sums
  obtain ⟨t, ht, hbase, -, hsame⟩ := hsums s.world (.plus (.plus (.schedule 0) (.schedule 1)) (.schedule 0))
    tuesdays weekends [tuesdays] rfl
  obtain ⟨hnamed, -⟩ := hinPlace s "weekends" (.named "weekends") 1 weekends rfl rfl rfl
  obtain ⟨u, hu, -⟩ := hnamed 1 weekends rfl rfl
  obtain ⟨-, hplain⟩ := hinPlace s "weekends" .plain 1 weekends rfl rfl rfl
  exact ⟨⟨t, ht, hbase, hsame _ rfl⟩, ⟨u, hu⟩, hplain none rfl nofun⟩

end Timetable
