import Timetable.Proofs.Occurrence.Reach
import Timetable.Proofs.Occurrence.Stream

/-! # Merged streams

An iterator that does not skip what is past finds, from its cursor on, one next occurrence after the
other (`Plan.occurrences?`, `Iterator.take_run_eq_occurrences?`), and these are the first instants that
the plan reaches (`Plan.firstInstants_of_occurrences?`).  Between two occurrences of a block the cursor
may move without a change to the block's next one, so that the block on its own gets to everything that
it adds to a merged stream (`Plan.exists_own_occurrences?`).  A merged stream is therefore the sorted
union of the streams of its blocks, whatever these are, in whatever order and however often
(`Plan.take_iteratorFrom_union`). -/

namespace Timetable

/-- What a number of steps from a cursor find, if no step leaves the calendar. -/
def Plan.occurrences? (p : Plan) : Nat → Instant → Option (List Instant)
  | 0, _ => some []
  | n + 1, c => do
    let t ← p.nextAfter? c
    let ts ← p.occurrences? n t
    return t :: ts

/-- An iterator over the plan that does not skip what is past. -/
def Plan.iteratorFrom (p : Plan) (s : Instant) (assumed : Option Offset) : Iterator :=
  ⟨p, s, false, assumed, false⟩

namespace Iterator

theorem startingAt_toMoment (p : Plan) (s : Instant) (assumed : Option Offset) :
    startingAt p s.toMoment false assumed = .ok (p.iteratorFrom s assumed) :=
  rfl

/-- The next step would leave the calendar. -/
def Overflows (it : Iterator) : Prop :=
  ∀ c, it.cursor? = some c → ∃ b ∈ it.plan.blocks, b.candidates? c = none

/-- The iterator comes to the instant after some number of steps. -/
def Finds (it : Iterator) (scene : Scene) (t : Instant) : Prop :=
  ∃ n ts, ((it.take n).run scene).1.1 = .ok ts ∧ t ∈ ts

end Iterator

/-! ### Occurrences of a plan -/

namespace Plan

variable {p q : Plan} {n : Nat} {b : Block} {c own t u : Instant} {ts : List Instant}

theorem occurrences?_succ_eq_some_iff : p.occurrences? (n + 1) c = some ts ↔
    ∃ t us, p.nextAfter? c = some t ∧ p.occurrences? n t = some us ∧ ts = t :: us := by
  simp only [occurrences?, Option.bind_eq_bind, Option.bind_eq_some_iff, Option.pure_def,
    Option.some.injEq]
  constructor
  · rintro ⟨t, ht, us, hus, rfl⟩
    exact ⟨t, us, ht, hus, rfl⟩
  · rintro ⟨t, us, ht, hus, rfl⟩
    exact ⟨t, ht, us, hus, rfl⟩

theorem occurrences?_succ_of_nextAfter? (h : p.nextAfter? c = some t) :
    p.occurrences? (n + 1) c = (p.occurrences? n t).map (t :: ·) := by
  rw [occurrences?, h]
  cases hts : p.occurrences? n t <;> simp [hts]

theorem length_of_occurrences? (h : p.occurrences? n c = some ts) : ts.length = n := by
  induction n generalizing c ts with
  | zero =>
      obtain rfl := Option.some.inj h
      rfl
  | succ n ih =>
      obtain ⟨t, us, -, hus, rfl⟩ := occurrences?_succ_eq_some_iff.mp h
      rw [List.length_cons, ih hus]

theorem occurrences?_congr (h : ∀ b, b ∈ p.blocks ↔ b ∈ q.blocks) (n : Nat) (c : Instant) :
    p.occurrences? n c = q.occurrences? n c := by
  induction n generalizing c with
  | zero => rfl
  | succ n ih => simp only [occurrences?, nextAfter?_congr h, ih]

/-- Step by step, the occurrences are the first instants that the plan reaches. -/
theorem firstInstants_of_occurrences? (h : p.occurrences? n c = some ts) :
    FirstInstants {u | c < u ∧ u.offset = c.offset ∧ p.Reaches u} ts := by
  induction n generalizing c ts with
  | zero =>
      obtain rfl := Option.some.inj h
      exact .nil
  | succ n ih =>
      obtain ⟨t, us, hnext, hus, rfl⟩ := occurrences?_succ_eq_some_iff.mp h
      have hleast := isLeast_nextAfter? hnext
      have ho : t.offset = c.offset := hleast.1.2.1
      have hset : {u | t < u ∧ u.offset = t.offset ∧ p.Reaches u}
          = {u | t < u ∧ c < u ∧ u.offset = c.offset ∧ p.Reaches u} := by
        ext u
        simp only [Set.mem_ofPred_eq, ho]
        exact ⟨fun hu => ⟨hu.1, lt_trans hleast.1.1 hu.1, hu.2⟩, fun hu => ⟨hu.1, hu.2.2⟩⟩
      have hrest := ih hus
      rw [hset] at hrest
      exact .cons (fun u hu => hu.2.1.trans ho.symm) hleast hrest

/-- A block that reaches nothing between its own cursor and that of the plan comes on its own to each
instant that it reaches of those that the plan finds. -/
theorem exists_own_occurrences? (hb : b ∈ p.blocks) (h : p.occurrences? n c = some ts)
    (ho : own.offset = c.offset) (hle : own ≤ c)
    (hnone : ∀ u, own < u → u.offset = c.offset → b.Reaches u → c < u) (ht : t ∈ ts)
    (hreaches : b.Reaches t) : ∃ m us, (single b).occurrences? m own = some us ∧ t ∈ us := by
  induction n generalizing c own ts with
  | zero =>
      obtain rfl := Option.some.inj h
      cases ht
  | succ n ih =>
      obtain ⟨t₁, us, hnext, hus, rfl⟩ := occurrences?_succ_eq_some_iff.mp h
      obtain ⟨⟨hlt, ho₁, -⟩, hmin⟩ := isLeast_nextAfter? hnext
      by_cases hfirst : b.Reaches t₁
      · -- the block's own step leads to the same instant, and both cursors are there
        have hown : (single b).nextAfter? own = some t₁ := by
          obtain ⟨cs, hcs⟩ := exists_nextAfter?_iff.mp ⟨t₁, hnext⟩ b hb
          have hcs' := Block.exists_candidates?_of_le hcs ho hle
          obtain ⟨t₂, ht₂⟩ : ∃ t₂, (single b).nextAfter? own = some t₂ :=
            exists_nextAfter?_iff.mpr fun b' hb' => List.mem_singleton.mp hb' ▸ hcs'
          obtain ⟨⟨hlt₂, ho₂, b', hb', hreaches₂⟩, hmin₂⟩ := isLeast_nextAfter? ht₂
          obtain rfl := List.mem_singleton.mp hb'
          have hle₁ : t₁ ≤ t₂ :=
            hmin ⟨hnone t₂ hlt₂ (ho₂.trans ho) hreaches₂, ho₂.trans ho, b', hb, hreaches₂⟩
          have hle₂ : t₂ ≤ t₁ := hmin₂ ⟨lt_of_le_of_lt hle hlt, ho₁.trans ho.symm, b', hb', hfirst⟩
          rw [ht₂, Instant.eq_of_le_of_le (ho₂.trans (ho.trans ho₁.symm)) hle₂ hle₁]
        rcases List.mem_cons.mp ht with rfl | ht
        · exact ⟨1, [t], occurrences?_succ_eq_some_iff.mpr ⟨t, [], hown, rfl, rfl⟩,
            List.mem_singleton_self t⟩
        · obtain ⟨m, us', hus', ht⟩ := ih hus rfl le_rfl (fun u hu _ _ => hu) ht
          exact ⟨m + 1, t₁ :: us', occurrences?_succ_eq_some_iff.mpr ⟨t₁, us', hown, hus', rfl⟩,
            List.mem_cons_of_mem t₁ ht⟩
      · -- the block has no part in this step, and stays where it is
        have hrest : t ∈ us := by
          rcases List.mem_cons.mp ht with rfl | ht
          · exact absurd hreaches hfirst
          · exact ht
        refine ih hus (ho.trans ho₁.symm) (hle.trans (le_of_lt hlt)) ?_ hrest
        intro u hu huo hreaches'
        rcases Instant.le_or_lt u t₁ with hut | hut
        · have hle₁ : t₁ ≤ u :=
            hmin ⟨hnone u hu (huo.trans ho₁) hreaches', huo.trans ho₁, b, hb, hreaches'⟩
          rw [Instant.eq_of_le_of_le huo hut hle₁] at hreaches'
          exact absurd hreaches' hfirst
        · exact hut

/-- Up to any of them, the occurrences of a plan are those of its blocks. -/
theorem mem_occurrences?_iff (h : p.occurrences? n c = some ts) (hu : u ∈ ts) (htu : t ≤ u) :
    t ∈ ts ↔ ∃ b ∈ p.blocks, ∃ m us, (single b).occurrences? m c = some us ∧ t ∈ us := by
  have hfirst := firstInstants_of_occurrences? h
  constructor
  · intro ht
    obtain ⟨-, -, b, hb, hreaches⟩ := hfirst.mem t ht
    exact ⟨b, hb, exists_own_occurrences? hb h rfl le_rfl (fun u hu _ _ => hu) ht hreaches⟩
  · rintro ⟨b, hb, m, us, hus, ht⟩
    obtain ⟨hlt, ho, b', hb', hreaches⟩ := (firstInstants_of_occurrences? hus).mem t ht
    obtain rfl := List.mem_singleton.mp hb'
    exact hfirst.closed u hu t ⟨hlt, ho, b', hb, hreaches⟩ htu

end Plan

/-! ### Occurrences of an iterator -/

namespace Iterator

variable {it : Iterator} {c : Instant} {scene : Scene} {n : Nat}

/-- What the steps find depends on the plan and the cursor alone. -/
theorem take_run_eq_occurrences? (hskip : it.skipOutdated = false) (hcursor : it.cursor? = some c) :
    ((it.take n).run scene).1.1 = orOutOfCalendar (it.plan.occurrences? n c) := by
  induction n generalizing it c scene with
  | zero => rfl
  | succ n ih =>
      cases hnext : it.plan.nextAfter? c with
      | none =>
          obtain ⟨scene', hstep⟩ := next_run_of_eq_none hskip (by rw [hcursor]; exact hnext) scene
          rw [take_succ_run_of_error hstep, Plan.occurrences?, hnext]
          rfl
      | some t =>
          obtain ⟨scene', hstep⟩ := next_run_of_nextAfter? hskip hcursor hnext scene
          have hrest : (((it.movedTo t).take n).run scene').1.1
              = orOutOfCalendar (it.plan.occurrences? n t) := ih hskip (cursor?_movedTo it t)
          rw [fst_take_succ_run_eq_map hstep, hrest, Plan.occurrences?_succ_of_nextAfter? hnext]
          cases it.plan.occurrences? n t <;> rfl

/-- Steps that do not overflow find something. -/
theorem exists_overflows_or_take_run (hskip : it.skipOutdated = false) (n : Nat) (scene : Scene) :
    (∃ m < n, ((it.take m).run scene).1.2.Overflows)
      ∨ ∃ ts, ((it.take n).run scene).1.1 = .ok ts := by
  induction n generalizing it scene with
  | zero => exact .inr ⟨[], rfl⟩
  | succ n ih =>
      by_cases hover : it.Overflows
      · exact .inl ⟨0, n.succ_pos, hover⟩
      · simp only [Overflows, not_forall, not_exists, not_and] at hover
        obtain ⟨c, hcursor, hall⟩ := hover
        obtain ⟨t, hnext⟩ : ∃ t, it.plan.nextAfter? c = some t :=
          Plan.exists_nextAfter?_iff.mpr fun b hb => Option.ne_none_iff_exists'.mp (hall b hb)
        obtain ⟨scene', hstep⟩ := next_run_of_nextAfter? hskip hcursor hnext scene
        have hskip' : (it.movedTo t).skipOutdated = false := hskip
        rcases ih hskip' scene' with ⟨m, hm, hover⟩ | ⟨ts, hts⟩
        · refine .inl ⟨m + 1, Nat.succ_lt_succ hm, ?_⟩
          rw [snd_take_succ_run hstep]
          exact hover
        · exact .inr ⟨t :: ts, fst_take_succ_run hstep hts⟩

/-- The iterators over the plans with one block each have the cursor of the one over all blocks. -/
theorem finds_iteratorFrom_iff {p q : Plan} {s t : Instant} {assumed : Option Offset}
    (hcursor : (p.iteratorFrom s assumed).cursor? = some c) :
    (q.iteratorFrom s assumed).Finds scene t
      ↔ ∃ m us, q.occurrences? m c = some us ∧ t ∈ us := by
  have hcursor' : (q.iteratorFrom s assumed).cursor? = some c := hcursor
  refine exists_congr fun m => exists_congr fun us => and_congr_left' ?_
  rw [take_run_eq_occurrences? rfl hcursor', orOutOfCalendar_eq_ok_iff]
  rfl

end Iterator

/-- As long as no step overflows, the iterator over several blocks finds the sorted union of what the
iterators over each of them find: up to every instant that it has reached, an instant is among those
that it has found exactly when one of these iterators finds it, and then it is there once.  What it finds
does not depend on the order of the blocks, or on how often each of them is there. -/
theorem Plan.take_iteratorFrom_union (p : Plan) (s : Instant) (assumed : Option Offset)
    (scene : Scene) (n : Nat) :
    ((∃ m < n, (((p.iteratorFrom s assumed).take m).run scene).1.2.Overflows)
      ∨ ∃ ts, (((p.iteratorFrom s assumed).take n).run scene).1.1 = .ok ts ∧ ts.length = n
          ∧ ts.Pairwise (· < ·)
          ∧ ∀ u ∈ ts, ∀ t ≤ u,
              t ∈ ts ↔ ∃ b ∈ p.blocks, ((single b).iteratorFrom s assumed).Finds scene t)
    ∧ ∀ q : Plan, (∀ b, b ∈ q.blocks ↔ b ∈ p.blocks) →
        (((q.iteratorFrom s assumed).take n).run scene).1.1
          = (((p.iteratorFrom s assumed).take n).run scene).1.1 := by
  have hskip (q : Plan) : (q.iteratorFrom s assumed).skipOutdated = false := rfl
  cases n with
  | zero => exact ⟨.inr ⟨[], rfl, rfl, .nil, by simp⟩, fun q hq => rfl⟩
  | succ n =>
      cases hcursor : (p.iteratorFrom s assumed).cursor? with
      | none =>
          -- the start cannot be written at the assumed offset, whatever the plan is
          have hfails (q : Plan) :
              (((q.iteratorFrom s assumed).take (n + 1)).run scene).1.1 = .error .outOfCalendar := by
            have hcursor' : (q.iteratorFrom s assumed).cursor? = none := hcursor
            obtain ⟨scene', hstep⟩ :=
              Iterator.next_run_of_eq_none (hskip q) (by rw [hcursor']; rfl) scene
            rw [Iterator.take_succ_run_of_error hstep]
          have hover : (p.iteratorFrom s assumed).Overflows := by
            intro c hc
            rw [hcursor] at hc
            cases hc
          exact ⟨.inl ⟨0, n.succ_pos, hover⟩, fun q hq => (hfails q).trans (hfails p).symm⟩
      | some c =>
          have htake (q : Plan) : (((q.iteratorFrom s assumed).take (n + 1)).run scene).1.1
              = orOutOfCalendar (q.occurrences? (n + 1) c) :=
            Iterator.take_run_eq_occurrences? (hskip q) hcursor
          refine ⟨?_, fun q hq => by rw [htake q, htake p, occurrences?_congr hq]⟩
          rcases Iterator.exists_overflows_or_take_run (hskip p) (n + 1) scene with hover | ⟨ts, hts⟩
          · exact .inl hover
          · have hocc : p.occurrences? (n + 1) c = some ts := by
              rw [htake p] at hts
              exact orOutOfCalendar_eq_ok_iff.mp hts
            have hfirst := firstInstants_of_occurrences? hocc
            refine .inr ⟨ts, hts, length_of_occurrences? hocc, hfirst.increasing, ?_⟩
            intro u hu t htu
            simp only [Iterator.finds_iteratorFrom_iff hcursor]
            exact mem_occurrences?_iff hocc hu htu

namespace Plan

/-- At 7 PM on Mondays, and at 7 PM and 8 PM on the first and then on the last Monday. -/
def evenings : Plan :=
  .merged
    [⟨[.onTheHour ⟨19, by decide⟩], some [⟨.monday, none⟩], none, by decide, by decide⟩,
      ⟨[.onTheHour ⟨19, by decide⟩, .onTheHour ⟨20, by decide⟩],
        some [⟨.monday, some .first⟩, ⟨.monday, some .last⟩], none, by decide, by decide⟩]
    (List.cons_ne_nil _ _)

/-- The same blocks the other way round, and then once more. -/
def eveningsAgain : Plan :=
  .merged (evenings.blocks.reverse ++ evenings.blocks) (by simp [evenings.blocks_ne])

/-- The 16th of June 2021, two in the afternoon. -/
def afternoon : Instant :=
  ⟨⟨737957, by decide, by decide⟩, .onTheHour ⟨14, by decide⟩, .utc⟩

/-- In either order, four steps lead to the same evenings, the last two of them on the first Monday of
July. -/
theorem take_iteratorFrom_union_evenings :
    (∀ b, b ∈ eveningsAgain.blocks ↔ b ∈ evenings.blocks)
      ∧ ∀ scene : Scene, (((eveningsAgain.iteratorFrom afternoon none).take 4).run scene).1.1
        = .ok [⟨⟨737962, by decide, by decide⟩, .onTheHour ⟨19, by decide⟩, .utc⟩,
            ⟨⟨737969, by decide, by decide⟩, .onTheHour ⟨19, by decide⟩, .utc⟩,
            ⟨⟨737976, by decide, by decide⟩, .onTheHour ⟨19, by decide⟩, .utc⟩,
            ⟨⟨737976, by decide, by decide⟩, .onTheHour ⟨20, by decide⟩, .utc⟩] := by
  have hblocks : ∀ b, b ∈ eveningsAgain.blocks ↔ b ∈ evenings.blocks := by
    intro b
    change b ∈ evenings.blocks.reverse ++ evenings.blocks ↔ _
    simp
  refine ⟨hblocks, fun scene => ?_⟩
  rw [(evenings.take_iteratorFrom_union afternoon none scene 4).2 eveningsAgain hblocks,
    Iterator.take_run_eq_occurrences? rfl rfl]
  cbv

end Plan

end Timetable
