import Timetable.Proofs.Occurrence.Stepping
import Timetable.Proofs.Occurrence.WithinYear

/-! # The stream of occurrences

An iterator over a block whose entries name different weekdays, or over one that names neither weekdays
nor weeks (`Block.Separate`), goes through all instants that the block covers, in order and each once.
As long as its cursor is 54 weeks from the end of the calendar (`Instant.LeavesRoom`) a step finds its
result, and this is the first covered instant after the cursor (`Block.exists_isLeast_nextAfter?`).  By
induction over the steps, `n` steps give the first `n` of these instants
(`Iterator.take_run_of_cursor?`, `Iterator.exists_firstInstants_take`). -/

namespace Timetable

/-- Written at the offset, the instant is at least 54 weeks before the end of the calendar. -/
def Instant.LeavesRoom (t : Instant) (offset : Offset) : Prop :=
  t.position + offset.micros + 54 * 7 * microsPerDay ≤ (lastDay + 1) * microsPerDay

instance (t : Instant) (offset : Offset) : Decidable (t.LeavesRoom offset) :=
  inferInstanceAs (Decidable (_ ≤ _))

/-- The entries name different weekdays; without entries the weeks are not restricted either. -/
def Block.Separate (b : Block) : Prop :=
  match b.days with
  | none => b.weeks = none
  | some es => es.Pairwise fun e f => e.weekday ≠ f.weekday

/-- The list goes through the first instants of the set, in increasing order. -/
structure FirstInstants (S : Set Instant) (ts : List Instant) : Prop where
  increasing : ts.Pairwise (· < ·)
  mem : ∀ t ∈ ts, t ∈ S
  closed : ∀ t ∈ ts, ∀ u ∈ S, u ≤ t → u ∈ ts

namespace FirstInstants

variable {S : Set Instant} {t : Instant} {ts : List Instant}

theorem nil : FirstInstants S [] :=
  ⟨.nil, by simp, by simp⟩

/-- The least instant, followed by the first ones after it. -/
theorem cons (hoffset : ∀ u ∈ S, u.offset = t.offset) (ht : IsLeast S t)
    (hts : FirstInstants {u | t < u ∧ u ∈ S} ts) : FirstInstants S (t :: ts) := by
  refine ⟨?_, ?_, ?_⟩
  · rw [List.pairwise_cons]
    exact ⟨fun u hu => (hts.mem u hu).1, hts.increasing⟩
  · intro u hu
    rcases List.mem_cons.mp hu with rfl | hu
    · exact ht.1
    · exact (hts.mem u hu).2
  · intro x hx u hu hux
    rcases Instant.le_or_lt u t with hle | hlt
    · have heq : u = t := Instant.eq_of_le_of_le (hoffset u hu) hle (ht.2 hu)
      rw [heq]
      exact List.mem_cons_self
    · rcases List.mem_cons.mp hx with rfl | hx
      · exact absurd hux (not_le_of_gt hlt)
      · exact List.mem_cons_of_mem t (hts.closed x hx u ⟨hlt, hu⟩ hux)

end FirstInstants

/-! ### Room before the end of the calendar -/

namespace Instant

variable {s t : Instant} {offset : Offset}

theorem LeavesRoom.number_le (h : t.LeavesRoom t.offset) : t.date.number + 54 * 7 ≤ lastDay + 1 := by
  rw [LeavesRoom, position_add_offset] at h
  unfold microsPerDay at h
  omega

theorem LeavesRoom.of_position_eq (h : s.LeavesRoom offset) (heq : t.position = s.position) :
    t.LeavesRoom offset := by
  rw [LeavesRoom, heq]
  exact h

/-- From year 2 on, and not near the end of the calendar, an instant can be written at any offset. -/
theorem exists_inOffset? (hyear : 2 ≤ s.date.year) (hroom : s.LeavesRoom offset) :
    ∃ t, s.inOffset? offset = some t := by
  have hnumber := Date.lt_number_of_two_le_year hyear
  have hroom' : s.date.number + 2 ≤ lastDay := by
    have hposition := position_add_offset s
    have hhigh := s.offset.lt_day
    have hlow := offset.gt_day
    unfold LeavesRoom at hroom
    unfold microsPerDay at *
    omega
  exact exists_inOffset?_of_number (by omega) hroom' offset

end Instant

/-! ### One step -/

namespace Block

variable {b : Block} {cursor : Instant}

theorem inOrder_of_separate (hsep : b.Separate) : b.InOrder cursor := by
  intro es hes time htime
  rw [Separate, hes] at hsep
  exact hsep.imp fun hne heq => absurd heq hne

theorem exists_candidateDates? (hsep : b.Separate) (hroom : cursor.date.number + 54 * 7 ≤ lastDay + 1)
    (time : TimeOfDay) : ∃ dates, b.candidateDates? cursor time = some dates := by
  have hweek : cursor.date.number + 7 ≤ lastDay := by omega
  obtain ⟨ds, hds⟩ : ∃ ds, cursor.datesAfter? time = some ds := Instant.exists_datesAfter? hweek
  cases hdays : b.days with
  | none => exact ⟨ds, (candidateDates?_of_none hdays).trans hds⟩
  | some es =>
      rw [Separate, hdays] at hsep
      refine ⟨_, (candidateDates?_eq_some_iff hdays).mpr ⟨ds, hds, ?_, rfl⟩⟩
      intro d hd
      apply Date.exists_settle?_of_distinct hsep
      intro e he
      have hnear := Instant.mem_datesAfter?_le hds hd
      obtain ⟨f, hle, -, hw, hholds⟩ := (e.rule b.weeks).exists_within_year (d := d) (by omega)
      obtain ⟨x, hx⟩ := Rule.exists_firstFrom? hle hw hholds
      exact ⟨x, Rule.firstFrom?_eq_some_iff.mp hx⟩

/-- A step finds the first covered instant after its cursor. -/
theorem exists_isLeast_nextAfter? (hsep : b.Separate)
    (hroom : cursor.date.number + 54 * 7 ≤ lastDay + 1) :
    ∃ t, (Plan.single b).nextAfter? cursor = some t
      ∧ IsLeast {u | cursor < u ∧ u.offset = cursor.offset ∧ b.Covers u} t := by
  have hcs := candidates?_eq_some_iff.mpr
    ⟨fun time _ => exists_candidateDates? hsep hroom time, rfl⟩
  obtain ⟨t, ht⟩ := exists_earliest? (candidates?_ne_nil hcs)
  refine ⟨t, ?_, isLeast_earliest? hcs (inOrder_of_separate hsep) ht⟩
  rw [Plan.nextAfter?, Plan.candidates?_single, hcs]
  exact ht

end Block

/-! ### All steps -/

namespace Iterator

/-- From a cursor, `n` steps give the first `n` covered instants after it. -/
theorem take_run_of_cursor? {b : Block} (hsep : b.Separate) :
    ∀ (n : Nat) (it : Iterator) {cursor : Instant} (scene : Scene), it.plan = .single b →
      it.skipOutdated = false → it.cursor? = some cursor →
      (∀ m < n, ((it.take m).run scene).1.2.current.LeavesRoom cursor.offset) →
      ∃ ts, ((it.take n).run scene).1.1 = .ok ts ∧ ts.length = n
        ∧ FirstInstants {u | cursor < u ∧ u.offset = cursor.offset ∧ b.Covers u} ts
  | 0, _, _, _, _, _, _, _ => ⟨[], rfl, rfl, .nil⟩
  | n + 1, it, cursor, scene, hplan, hskip, hcursor, hroom => by
      have hnow : cursor.LeavesRoom cursor.offset :=
        (hroom 0 n.succ_pos).of_position_eq (position_of_cursor? hcursor)
      obtain ⟨t, hnext, hleast⟩ := Block.exists_isLeast_nextAfter? hsep hnow.number_le
      rw [← hplan] at hnext
      obtain ⟨scene', hstep⟩ := next_run_of_nextAfter? hskip hcursor hnext scene
      have ho : t.offset = cursor.offset := hleast.1.2.1
      obtain ⟨ts, hts, hlength, hfirst⟩ := take_run_of_cursor? hsep n (it.movedTo t) scene'
        hplan hskip (cursor?_movedTo it t) (by
          intro m hm
          rw [ho, ← snd_take_succ_run hstep]
          exact hroom (m + 1) (Nat.succ_lt_succ hm))
      refine ⟨t :: ts, ?_, ?_, ?_⟩
      · exact fst_take_succ_run hstep hts
      · rw [List.length_cons, hlength]
      · have hset : {u | t < u ∧ u.offset = t.offset ∧ b.Covers u}
            = {u | t < u ∧ cursor < u ∧ u.offset = cursor.offset ∧ b.Covers u} := by
          ext u
          constructor
          · rintro ⟨htu, huo, hu⟩
            exact ⟨htu, lt_trans hleast.1.1 htu, huo.trans ho, hu⟩
          · rintro ⟨htu, -, huo, hu⟩
            exact ⟨htu, huo.trans ho.symm, hu⟩
        rw [hset] at hfirst
        exact .cons (fun u hu => hu.2.1.trans ho.symm) hleast hfirst

/-- An iterator over the block that does not skip what is past gives the first `n` of the instants
after its start that the block covers, written at the assumed offset or else at that of the start, as
long as it stays 54 weeks before the end of the calendar. -/
theorem exists_firstInstants_take {b : Block} (hsep : b.Separate) {s : Instant}
    {assumed : Option Offset} (hyear : assumed ≠ none → 2 ≤ s.date.year) :
    ∃ it, startingAt (.single b) s.toMoment false assumed = .ok it ∧ ∀ (scene : Scene) (n : Nat),
      (∀ m < n, ((it.take m).run scene).1.2.current.LeavesRoom (assumed.getD s.offset)) →
      ∃ ts, ((it.take n).run scene).1.1 = .ok ts ∧ ts.length = n ∧ FirstInstants
        {t | s < t ∧ t.offset = assumed.getD s.offset ∧ b.Covers t} ts := by
  refine ⟨⟨.single b, s, false, assumed, false⟩, rfl, ?_⟩
  intro scene n hroom
  cases n with
  | zero => exact ⟨[], rfl, rfl, .nil⟩
  | succ n =>
      -- the cursor of the first step is the start, at the assumed offset
      obtain ⟨cursor, hcursor, ho⟩ : ∃ cursor : Instant,
          cursor? ⟨.single b, s, false, assumed, false⟩ = some cursor
            ∧ cursor.offset = assumed.getD s.offset := by
        cases assumed with
        | none => exact ⟨s, rfl, rfl⟩
        | some offset =>
            obtain ⟨cursor, hcursor⟩ :=
              Instant.exists_inOffset? (hyear nofun) (hroom 0 n.succ_pos)
            exact ⟨cursor, hcursor, (Instant.inOffset?_eq_some_iff.mp hcursor).2.1⟩
      have hposition := position_of_cursor? hcursor
      obtain ⟨ts, hts, hlength, hfirst⟩ := take_run_of_cursor? hsep (n + 1) _ scene rfl rfl hcursor
        (by rw [ho]; exact hroom)
      refine ⟨ts, hts, hlength, ?_⟩
      have hset : {u | cursor < u ∧ u.offset = cursor.offset ∧ b.Covers u}
          = {u | s < u ∧ u.offset = assumed.getD s.offset ∧ b.Covers u} := by
        simp only [Instant.lt_iff, hposition, ho]
      rw [← hset]
      exact hfirst

/-- At 8 AM on first Mondays and on Thursdays in odd weeks. -/
def firstMondaysAndThursdays : Block :=
  ⟨[.onTheHour ⟨8, by decide⟩], some [⟨.monday, some .first⟩, ⟨.thursday, none⟩], some .odd,
    by decide, by decide⟩

/-- Two steps from the 9th of June 2021, one in the afternoon, at two hours ahead of UTC: the first
leads to Thursday, the 10th. -/
theorem exists_firstInstants_take_two :
    ∃ it, startingAt (.single firstMondaysAndThursdays)
        ⟨⟨737950, by decide, by decide⟩, .onTheHour 13, some .utc⟩ false
        (some (.ofTime true (.onTheHour 2))) = .ok it
      ∧ ∀ scene : Scene, ∃ ts, ((it.take 2).run scene).1.1 = .ok ts ∧ ts.length = 2
        ∧ FirstInstants {t | ⟨⟨737950, by decide, by decide⟩, .onTheHour 13, .utc⟩ < t
          ∧ t.offset = .ofTime true (.onTheHour 2) ∧ firstMondaysAndThursdays.Covers t} ts := by
  obtain ⟨it, hit, htake⟩ := exists_firstInstants_take (b := firstMondaysAndThursdays)
    (by simp [Block.Separate, firstMondaysAndThursdays])
    (s := ⟨⟨737950, by decide, by decide⟩, .onTheHour 13, .utc⟩) fun _ => by decide
  refine ⟨it, hit, fun scene => htake scene 2 ?_⟩
  have hplan : it.plan = .single firstMondaysAndThursdays := by cases hit; rfl
  have hskip : it.skipOutdated = false := by cases hit; rfl
  have hcurrent : it.current = ⟨⟨737950, by decide, by decide⟩, .onTheHour 13, .utc⟩ := by
    cases hit; rfl
  have hcursor : it.cursor? = some ⟨⟨737950, by decide, by decide⟩, .onTheHour 15,
      .ofTime true (.onTheHour 2)⟩ := by cases hit; rfl
  have hnext : it.plan.nextAfter? ⟨⟨737950, by decide, by decide⟩, .onTheHour 15,
      .ofTime true (.onTheHour 2)⟩ = some ⟨⟨737951, by decide, by decide⟩, .onTheHour 8,
      .ofTime true (.onTheHour 2)⟩ := by rw [hplan]; cbv
  obtain ⟨scene', hstep⟩ := next_run_of_nextAfter? hskip hcursor hnext scene
  intro m hm
  obtain rfl | rfl : m = 0 ∨ m = 1 := by omega
  · change it.current.LeavesRoom _
    rw [hcurrent]
    decide
  · rw [snd_take_succ_run hstep]
    change Instant.LeavesRoom ⟨⟨737951, by decide, by decide⟩, .onTheHour 8, _⟩ _
    decide

end Iterator

end Timetable
