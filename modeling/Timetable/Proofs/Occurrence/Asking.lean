import Timetable.Proofs.Occurrence.Indifference
import Timetable.Proofs.Settings.Keeping
import Mathlib.Order.Defs.Unbundled

/-! # What steps of an iterator ask, and what they change

The steps of an iterator change where it stands, and nothing else about it.  Around it they change no more
than how often a manual clock has been asked and will fail, the settings that are kept, and the log
(`Iterator.onlyMoved_take`).  All that a step asks for is the current instant, and that at most once; after a
step that fails nothing more is asked for (`Iterator.told`).  What is found depends on nothing else: where an
iterator is told the same, it answers the same (`Iterator.fst_take_run_congr`). -/

namespace Timetable

/-! ### What an action changes -/

namespace Action

variable {σ α β : Type} {R : σ → σ → Prop}

/-- From whatever state the action begins in, it leads to a related one, be it that it fails. -/
def Leads (R : σ → σ → Prop) (x : ExceptT Error (StateM σ) α) : Prop :=
  ∀ s, R s (ExceptT.run x s).2

namespace Leads

variable [IsPreorder σ R]

theorem lift (x : Except Error α) : Leads R (liftM x : ExceptT Error (StateM σ) α) := by
  intro s
  rw [run_lift]
  exact refl_of R s

theorem pure (a : α) : Leads R (Pure.pure a : ExceptT Error (StateM σ) α) :=
  fun s => refl_of R s

theorem bind {x : ExceptT Error (StateM σ) α} {f : α → ExceptT Error (StateM σ) β}
    (hx : Leads R x) (hf : ∀ a, Leads R (f a)) : Leads R (x >>= f) := by
  intro s
  have hs := hx s
  rw [run_bind]
  cases hrun : ExceptT.run x s with
  | mk result s' =>
      rw [hrun] at hs
      cases result with
      | error error => exact hs
      | ok a => exact trans_of R hs (hf a s')

end Leads

end Action

namespace Clock

/-- The clocks differ at most in how often they have been asked and will fail. -/
def SameButCounters : Clock → Clock → Prop
  | system o, system o' => o = o'
  | manual m, manual m' => m.now = m'.now
  | _, _ => False

theorem SameButCounters.refl (c : Clock) : c.SameButCounters c := by
  cases c <;> rfl

theorem SameButCounters.trans {a b c : Clock} (h : a.SameButCounters b) (h' : b.SameButCounters c) :
    a.SameButCounters c := by
  cases a <;> cases b <;> cases c <;> first | exact Eq.trans h h' | exact h.elim | exact h'.elim

end Clock

namespace Scene

/-- The second scene is the first one after questions: the clock may have counted them, the settings may have
been read, and the log may be longer. -/
structure SameButCounters (s t : Scene) : Prop where
  clock : s.clock.SameButCounters t.clock
  host : t.surroundings.host = s.surroundings.host
  vars : t.surroundings.settings.vars = s.surroundings.settings.vars
  settings : ∀ settings, s.surroundings.settings.kept = some settings →
    t.surroundings.settings.kept = some settings
  log : s.surroundings.log.toList <+: t.surroundings.log.toList

instance : IsPreorder Scene SameButCounters where
  refl s := ⟨.refl s.clock, rfl, rfl, fun _ h => h, List.prefix_rfl⟩
  trans _ _ _ h h' := ⟨h.clock.trans h'.clock, h'.host.trans h.host, h'.vars.trans h.vars,
    fun settings hkept => h'.settings settings (h.settings settings hkept), h.log.trans h'.log⟩

theorem sameButCounters_logged (s : Scene) (event : LogEvent) : s.SameButCounters (s.logged event) :=
  ⟨.refl s.clock, rfl, rfl, fun _ h => h, by simp [logged]⟩

end Scene

namespace Action

theorem leads_report (severity : Severity) (message : String) :
    Leads Scene.SameButCounters (report severity message) :=
  fun s => s.sameButCounters_logged ⟨severity, message⟩

theorem settings_run (s : Scene) : settings.run s = (s.surroundings.settings.get.1,
    { s with surroundings := { s.surroundings with settings := s.surroundings.settings.get.2 } }) :=
  run_lift s.surroundings.settings.get.1 _

theorem leads_settings : Leads Scene.SameButCounters settings := by
  intro s
  rw [settings_run]
  refine ⟨.refl s.clock, rfl, SettingsStore.vars_get _, fun settings hkept => ?_, List.prefix_rfl⟩
  show s.surroundings.settings.get.2.kept = some settings
  rw [SettingsStore.get_of_kept hkept]
  exact hkept

end Action

namespace Clock

open Timetable.Action

theorem hostOffset_run (s : Scene) : hostOffset.run s = match s.surroundings.host.localOffset with
    | .ok offset => (.ok offset, s)
    | .error reason => (.error (.indeterminateOffset (Error.noLocalOffset ++ ": " ++ reason)),
        s.logged ⟨.warning, "Unable to determine the local offset of the host: " ++ reason⟩) := by
  change ExceptT.run (match s.surroundings.host.localOffset with
    | .ok offset => pure offset
    | .error reason => _ : Action Offset) s = _
  cases s.surroundings.host.localOffset <;> rfl

theorem leads_localOffset : Leads Scene.SameButCounters localOffset := by
  rintro ⟨clock, surroundings⟩
  cases clock with
  | manual m =>
      rw [localOffset_run_manual]
      refine ⟨?_, rfl, rfl, fun _ h => h, List.prefix_rfl⟩
      rw [ManualClock.localOffset]
      split <;> rfl
  | system own =>
      cases own with
      | some offset => exact refl_of Scene.SameButCounters _
      | none =>
          refine Leads.bind leads_settings (fun settings => ?_) ⟨.system none, surroundings⟩
          cases settings.localOffset with
          | some offset => exact .pure offset
          | none =>
              intro s
              rw [hostOffset_run]
              cases s.surroundings.host.localOffset with
              | ok offset => exact refl_of Scene.SameButCounters s
              | error reason => exact s.sameButCounters_logged _

theorem leads_now (offset : Offset) : Leads Scene.SameButCounters (now offset) := by
  intro s
  rw [now_run]
  exact refl_of Scene.SameButCounters s

end Clock

namespace Iterator

open Timetable.Action

variable {it : Iterator} {s t : Scene}

/-! ### What is asked for -/

/-- What the iterator is told in one step: the current instant, if it skips what is past.  Without a cursor it
does not come to ask. -/
def toldInStep (it : Iterator) (s : Scene) : List (Except Error Instant) :=
  if it.skipOutdated && it.cursor?.isSome then [(it.present.run s).1] else []

/-- What the iterator is told in the course of several steps, of which none is made after one that fails. -/
def told (it : Iterator) : Nat → Scene → List (Except Error Instant)
  | 0, _ => []
  | count + 1, s =>
    it.toldInStep s ++ match it.next.run s with
      | ((.ok _, moved), s') => moved.told count s'
      | ((.error _, _), _) => []

/-- Whether it asks depends on the iterator alone. -/
theorem length_toldInStep (it : Iterator) (s t : Scene) :
    (it.toldInStep s).length = (it.toldInStep t).length := by
  rw [toldInStep, toldInStep]
  split <;> rfl

theorem told_succ_inj {count : Nat} (h : it.told (count + 1) s = it.told (count + 1) t) :
    it.toldInStep s = it.toldInStep t
      ∧ ∀ {u u' : Instant} {moved moved' : Iterator} {s' t' : Scene},
        it.next.run s = ((.ok u, moved), s') → it.next.run t = ((.ok u', moved'), t') →
          moved.told count s' = moved'.told count t' := by
  rw [told, told] at h
  obtain ⟨hstep, hrest⟩ := List.append_inj h (it.length_toldInStep s t)
  refine ⟨hstep, fun hs ht => ?_⟩
  rwa [hs, ht] at hrest

/-! ### What is changed -/

theorem leads_present (it : Iterator) : Leads Scene.SameButCounters it.present := by
  unfold present
  cases it.offset with
  | some offset => exact Clock.leads_now offset
  | none => exact .bind Clock.leads_localOffset Clock.leads_now

theorem leads_start (it : Iterator) : Leads Scene.SameButCounters it.start := by
  refine .bind (.lift _) fun cursor => ?_
  split
  · refine .bind it.leads_present fun now => ?_
    split
    · exact .bind (leads_report _ _) fun _ => .pure _
    · exact .pure _
  · exact .pure _

theorem leads_choose (it : Iterator) : Leads Scene.SameButCounters it.choose := by
  refine .bind it.leads_start fun cursor => .bind (.lift _) fun candidates => ?_
  exact .bind (.lift _) fun next => .bind (leads_report _ _) fun _ => .pure _

theorem snd_next_run_eq (it : Iterator) (s : Scene) : (it.next.run s).2 = (it.choose.run s).2 := by
  rw [next_run]
  cases it.choose.run s with
  | mk result s' => cases result <;> rfl

/-- An iterator that does the same as the second one, from another place. -/
def ConfiguredAs (it other : Iterator) : Prop :=
  it.plan = other.plan ∧ it.skipOutdated = other.skipOutdated ∧ it.offset = other.offset

/-- Steps may have led from the first iterator in its scene to the second one in its own. -/
structure OnlyMoved (x y : Iterator × Scene) : Prop where
  configured : y.1.ConfiguredAs x.1
  counters : x.2.SameButCounters y.2

instance : IsPreorder (Iterator × Scene) OnlyMoved where
  refl x := ⟨⟨rfl, rfl, rfl⟩, refl_of Scene.SameButCounters x.2⟩
  trans _ _ _ h h' := by
    obtain ⟨hplan, hskip, hoffset⟩ := h.configured
    obtain ⟨hplan', hskip', hoffset'⟩ := h'.configured
    exact ⟨⟨hplan'.trans hplan, hskip'.trans hskip, hoffset'.trans hoffset⟩,
      trans_of Scene.SameButCounters h.counters h'.counters⟩

theorem onlyMoved_next (it : Iterator) (s : Scene) :
    OnlyMoved (it, s) ((it.next.run s).1.2, (it.next.run s).2) := by
  constructor
  · show (it.next.run s).1.2.ConfiguredAs it
    rw [snd_next_run]
    cases (it.next.run s).1.1 <;> exact ⟨rfl, rfl, rfl⟩
  · show s.SameButCounters (it.next.run s).2
    rw [snd_next_run_eq]
    exact it.leads_choose s

theorem onlyMoved_take (it : Iterator) (count : Nat) (s : Scene) :
    OnlyMoved (it, s) (((it.take count).run s).1.2, ((it.take count).run s).2) := by
  induction count generalizing it s with
  | zero => exact refl_of OnlyMoved (it, s)
  | succ count ih =>
      have hnext := it.onlyMoved_next s
      cases hrun : it.next.run s with
      | mk result s' =>
          obtain ⟨answer, moved⟩ := result
          rw [hrun] at hnext
          cases answer with
          | error error =>
              rw [take_succ_run_of_error hrun]
              exact hnext
          | ok found =>
              have hrest := ih moved s'
              rw [take_succ_run hrun]
              generalize (moved.take count).run s' = run at hrest ⊢
              obtain ⟨⟨rest, last⟩, s''⟩ := run
              cases rest <;> exact trans_of OnlyMoved hnext hrest

/-! ### What a step depends on -/

/-- What a step finds depends on nothing but what the iterator is told in it. -/
theorem fst_choose_run_congr (h : it.toldInStep s = it.toldInStep t) :
    (it.choose.run s).1 = (it.choose.run t).1 := by
  have hstart : (it.start.run s).1 = (it.start.run t).1 := by
    rw [fst_start_run, fst_start_run]
    cases hcursor : it.cursor? with
    | none => rfl
    | some cursor =>
        cases hskip : it.skipOutdated with
        | false => rfl
        | true =>
            rw [toldInStep, toldInStep, hcursor, hskip] at h
            obtain ⟨hpresent, -⟩ := List.cons.inj h
            rw [hpresent]
  have hs := it.choose_run s
  have ht := it.choose_run t
  rw [hs, ht]
  generalize it.start.run s = run at hstart ⊢
  generalize it.start.run t = run' at hstart ⊢
  obtain ⟨result, s'⟩ := run
  obtain ⟨result', t'⟩ := run'
  obtain rfl : result = result' := hstart
  cases result <;> rfl

theorem fst_next_run_congr (h : it.toldInStep s = it.toldInStep t) :
    (it.next.run s).1 = (it.next.run t).1 := by
  have hresult : (it.next.run s).1.1 = (it.next.run t).1.1 := by
    rw [fst_next_run, fst_next_run, fst_choose_run_congr h]
  have hmoved : (it.next.run s).1.2 = (it.next.run t).1.2 := by
    rw [snd_next_run, snd_next_run, hresult]
  exact Prod.ext hresult hmoved

/-- Where it is told the same, an iterator answers the same and goes to the same place. -/
theorem fst_take_run_congr (count : Nat) (h : it.told count s = it.told count t) :
    ((it.take count).run s).1 = ((it.take count).run t).1 := by
  induction count generalizing it s t with
  | zero => rfl
  | succ count ih =>
      obtain ⟨hstep, hrest⟩ := told_succ_inj h
      have hnext := fst_next_run_congr hstep
      cases hs : it.next.run s with
      | mk result s' =>
          cases ht : it.next.run t with
          | mk result' t' =>
              rw [hs, ht] at hnext
              obtain rfl : result = result' := hnext
              obtain ⟨answer, moved⟩ := result
              cases answer with
              | error error => rw [take_succ_run_of_error hs, take_succ_run_of_error ht]
              | ok found =>
                  have hlater := ih (hrest hs ht)
                  refine Prod.ext ?_ ?_
                  · rw [fst_take_succ_run_eq_map hs, fst_take_succ_run_eq_map ht, hlater]
                  · rw [snd_take_succ_run hs, snd_take_succ_run ht, hlater]

end Iterator

end Timetable
