import Timetable.Occurrence.Candidates
import Timetable.Proofs.Occurrence.Search

/-! # What a list of entries makes of a date

`Date.settle?` moves one date on from entry to entry: every date that it gives satisfies one of the
entries (`Date.meets_of_mem_settle?`).  Beside it stand the dates that the entries name each on its own,
all searched for from the same date (`Date.ownDates`).  The entries' own dates are never later than the
ones that the moving date reaches (`Date.forall₂_ownDates`), and the two lists are the same exactly when
the own dates come in order (`Date.settle?_eq_ownDates_iff`). -/

namespace Timetable

/-- The rule that an entry puts on the dates of its weekday. -/
def Entry.rule (e : Entry) (parity : Option Parity) : Rule :=
  ⟨e.modifier, parity⟩

/-- The date satisfies the entry. -/
def Entry.Meets (e : Entry) (parity : Option Parity) (d : Date) : Prop :=
  e.weekday = d.weekday ∧ (e.rule parity).holds? d = some true

namespace Date

variable {parity : Option Parity} {e : Entry} {es : List Entry} {d x y : Date} {found : List Date}

theorem settle?_cons_of_ne (h : e.weekday ≠ d.weekday) :
    settle? parity (e :: es) d = settle? parity es d := by
  rw [settle?, if_neg h]

theorem settle?_cons_eq_some_iff (h : e.weekday = d.weekday) :
    settle? parity (e :: es) d = some found ↔
      ∃ x xs, (e.rule parity).IsFirstFrom d x ∧ settle? parity es x = some xs ∧ found = x :: xs := by
  rw [settle?, if_pos h]
  simp only [← Rule.firstFrom?_eq_some_iff, Entry.rule, Option.bind_eq_bind,
    Option.bind_eq_some_iff, Option.pure_def, Option.some.injEq]
  constructor
  · rintro ⟨x, hx, xs, hxs, rfl⟩
    exact ⟨x, xs, hx, hxs, rfl⟩
  · rintro ⟨x, xs, hx, hxs, rfl⟩
    exact ⟨x, hx, xs, hxs, rfl⟩

theorem meets_of_mem_settle? : ∀ {es : List Entry} {d : Date} {found : List Date},
    settle? parity es d = some found → ∀ x ∈ found,
      d.number ≤ x.number ∧ x.weekday = d.weekday ∧ ∃ e ∈ es, e.Meets parity x
  | [], d, found, h, x, hx => by
      obtain rfl : [] = found := Option.some.inj h
      cases hx
  | e :: es, d, found, h, x, hx => by
      by_cases hw : e.weekday = d.weekday
      · obtain ⟨y, ys, hy, hys, rfl⟩ := (settle?_cons_eq_some_iff hw).mp h
        rcases List.mem_cons.mp hx with rfl | hx
        · exact ⟨hy.le, hy.weekday_eq, e, List.mem_cons_self, hw.trans hy.weekday_eq.symm, hy.holds⟩
        · obtain ⟨hle, hxw, e', he', hmeets⟩ := meets_of_mem_settle? hys x hx
          exact ⟨hy.le.trans hle, hxw.trans hy.weekday_eq, e', List.mem_cons_of_mem e he', hmeets⟩
      · rw [settle?_cons_of_ne hw] at h
        obtain ⟨hle, hxw, e', he', hmeets⟩ := meets_of_mem_settle? h x hx
        exact ⟨hle, hxw, e', List.mem_cons_of_mem e he', hmeets⟩

theorem settle?_of_forall_ne : ∀ {es : List Entry}, (∀ e ∈ es, e.weekday ≠ d.weekday) →
    settle? parity es d = some []
  | [], _ => rfl
  | e :: es, h => by
      rw [settle?_cons_of_ne (h e List.mem_cons_self)]
      exact settle?_of_forall_ne fun e' he' => h e' (List.mem_cons_of_mem e he')

/-- Entries for different weekdays move a date at most once; there is such a date if each entry can be
satisfied. -/
theorem exists_settle?_of_distinct : ∀ {es : List Entry},
    es.Pairwise (fun e f => e.weekday ≠ f.weekday) →
      (∀ e ∈ es, ∃ x, (e.rule parity).IsFirstFrom d x) → ∃ found, settle? parity es d = some found
  | [], _, _ => ⟨[], rfl⟩
  | e :: es, hdistinct, hexists => by
      obtain ⟨he, hes⟩ := List.pairwise_cons.mp hdistinct
      by_cases hw : e.weekday = d.weekday
      · obtain ⟨x, hx⟩ := hexists e List.mem_cons_self
        have hrest : settle? parity es x = some [] := by
          apply settle?_of_forall_ne
          intro f hf heq
          exact he f hf (hw.trans (hx.weekday_eq.symm.trans heq.symm))
        exact ⟨[x], (settle?_cons_eq_some_iff hw).mpr ⟨x, [], hx, hrest, rfl⟩⟩
      · rw [settle?_cons_of_ne hw]
        exact exists_settle?_of_distinct hes fun f hf => hexists f (List.mem_cons_of_mem e hf)

/-! ### Each entry on its own -/

/-- The dates that the entries of a list name from one date on, each on its own. -/
def ownDates (parity : Option Parity) (es : List Entry) (d : Date) : List Date :=
  es.flatMap fun e => (settle? parity [e] d).getD []

theorem mem_settle?_singleton_iff :
    x ∈ (settle? parity [e] d).getD [] ↔ e.weekday = d.weekday ∧ (e.rule parity).IsFirstFrom d x := by
  by_cases hw : e.weekday = d.weekday
  · rw [← Rule.firstFrom?_eq_some_iff]
    cases hx : Rule.firstFrom? (e.rule parity) d with
    | none => simp [settle?, hw, show Rule.firstFrom? ⟨e.modifier, parity⟩ d = none from hx]
    | some y =>
        simp [settle?, hw, show Rule.firstFrom? ⟨e.modifier, parity⟩ d = some y from hx, eq_comm]
  · simp [settle?, hw]

theorem pairwise_settle?_singleton {R : Date → Date → Prop} :
    ((settle? parity [e] d).getD []).Pairwise R := by
  cases hfound : settle? parity [e] d with
  | none => exact .nil
  | some found =>
      by_cases hw : e.weekday = d.weekday
      · obtain ⟨x, xs, -, hxs, rfl⟩ := (settle?_cons_eq_some_iff hw).mp hfound
        obtain rfl : [] = xs := Option.some.inj hxs
        exact List.pairwise_singleton R x
      · rw [settle?_cons_of_ne hw] at hfound
        obtain rfl : [] = found := Option.some.inj hfound
        exact .nil

theorem mem_ownDates_iff :
    x ∈ ownDates parity es d ↔
      ∃ e ∈ es, e.weekday = d.weekday ∧ (e.rule parity).IsFirstFrom d x := by
  simp only [ownDates, List.mem_flatMap, mem_settle?_singleton_iff]

theorem ownDates_cons_of_ne (h : e.weekday ≠ d.weekday) :
    ownDates parity (e :: es) d = ownDates parity es d := by
  rw [ownDates, List.flatMap_cons, settle?_cons_of_ne h]
  rfl

theorem settle?_singleton (h : e.weekday = d.weekday) (hx : (e.rule parity).IsFirstFrom d x) :
    settle? parity [e] d = some [x] :=
  (settle?_cons_eq_some_iff h).mpr ⟨x, [], hx, rfl, rfl⟩

theorem ownDates_cons_of_eq (h : e.weekday = d.weekday) (hx : (e.rule parity).IsFirstFrom d x) :
    ownDates parity (e :: es) d = x :: ownDates parity es d := by
  rw [ownDates, List.flatMap_cons, settle?_singleton h hx]
  rfl

/-- What an entry finds from a later date, it or something earlier it finds from `d`. -/
theorem exists_isFirstFrom_of_le {rule : Rule} (hle : d.number ≤ x.number)
    (hw : x.weekday = d.weekday) (hy : rule.IsFirstFrom x y) :
    ∃ z, rule.IsFirstFrom d z ∧ z.number ≤ y.number := by
  obtain ⟨z, hz⟩ := Rule.exists_firstFrom? (hle.trans hy.le) (hy.weekday_eq.trans hw) hy.holds
  have hz' := Rule.firstFrom?_eq_some_iff.mp hz
  exact ⟨z, hz', hz'.mono hy hle hw⟩

/-- Where a date can be moved on, each entry of its weekday has an own date. -/
theorem exists_isFirstFrom_of_settle? : ∀ {es : List Entry} {x : Date} {found : List Date},
    settle? parity es x = some found → d.number ≤ x.number → x.weekday = d.weekday →
      ∀ e ∈ es, e.weekday = d.weekday → ∃ z, (e.rule parity).IsFirstFrom d z
  | f :: es, x, found, h, hle, hxd, e, he, hw => by
      by_cases hfw : f.weekday = d.weekday
      · obtain ⟨y, ys, hy, hys, rfl⟩ := (settle?_cons_eq_some_iff (hfw.trans hxd.symm)).mp h
        rcases List.mem_cons.mp he with rfl | he
        · obtain ⟨z, hz, -⟩ := exists_isFirstFrom_of_le hle hxd hy
          exact ⟨z, hz⟩
        · exact exists_isFirstFrom_of_settle? hys (hle.trans hy.le) (hy.weekday_eq.trans hxd) e he hw
      · rw [settle?_cons_of_ne fun heq => hfw (heq.trans hxd)] at h
        rcases List.mem_cons.mp he with rfl | he
        · exact absurd hw hfw
        · exact exists_isFirstFrom_of_settle? h hle hxd e he hw

/-- The own dates are not later than the dates that a moving date reaches. -/
theorem forall₂_ownDates : ∀ {es : List Entry} {x : Date} {found : List Date},
    settle? parity es x = some found → d.number ≤ x.number → x.weekday = d.weekday →
      List.Forall₂ (fun own reached : Date => own.number ≤ reached.number) (ownDates parity es d) found
  | [], x, found, h, _, _ => by
      obtain rfl : [] = found := Option.some.inj h
      exact .nil
  | e :: es, x, found, h, hle, hxd => by
      by_cases hw : e.weekday = d.weekday
      · obtain ⟨y, ys, hy, hys, rfl⟩ := (settle?_cons_eq_some_iff (hw.trans hxd.symm)).mp h
        obtain ⟨z, hz, hzy⟩ := exists_isFirstFrom_of_le hle hxd hy
        rw [ownDates_cons_of_eq hw hz]
        exact .cons hzy (forall₂_ownDates hys (hle.trans hy.le) (hy.weekday_eq.trans hxd))
      · rw [settle?_cons_of_ne fun heq => hw (heq.trans hxd)] at h
        rw [ownDates_cons_of_ne hw]
        exact forall₂_ownDates h hle hxd

/-- A date that is moved on reaches the own dates of the entries exactly when it never has to go
back for one of them. -/
theorem settle?_eq_ownDates_iff : ∀ {es : List Entry} {x : Date} {found : List Date},
    settle? parity es x = some found → d.number ≤ x.number → x.weekday = d.weekday →
      (found = ownDates parity es d ↔
        (x :: ownDates parity es d).Pairwise fun a b => a.number ≤ b.number)
  | [], x, found, h, _, _ => by
      obtain rfl : [] = found := Option.some.inj h
      simp [ownDates]
  | e :: es, x, found, h, hle, hxd => by
      by_cases hw : e.weekday = d.weekday
      · obtain ⟨y, ys, hy, hys, rfl⟩ := (settle?_cons_eq_some_iff (hw.trans hxd.symm)).mp h
        obtain ⟨z, hz, hzy⟩ := exists_isFirstFrom_of_le hle hxd hy
        rw [ownDates_cons_of_eq hw hz, List.cons.injEq, List.pairwise_cons]
        constructor
        · rintro ⟨rfl, hrest⟩
          have hordered := (settle?_eq_ownDates_iff hys hz.le hz.weekday_eq).mp hrest
          refine ⟨?_, hordered⟩
          intro a ha
          rcases List.mem_cons.mp ha with rfl | ha
          · exact hy.le
          · exact hy.le.trans ((List.pairwise_cons.mp hordered).1 a ha)
        · rintro ⟨hfirst, hordered⟩
          have hyz : y = z := hy.unique (hz.of_le hle hxd (hfirst z List.mem_cons_self))
          subst hyz
          exact ⟨rfl, (settle?_eq_ownDates_iff hys hz.le hz.weekday_eq).mpr hordered⟩
      · rw [settle?_cons_of_ne fun heq => hw (heq.trans hxd)] at h
        rw [ownDates_cons_of_ne hw]
        exact settle?_eq_ownDates_iff h hle hxd

end Date

end Timetable
