import Timetable.Occurrence.Rule
import Timetable.Proofs.Calendar.Order

/-! # The search for a date that satisfies a rule

`Rule.firstFrom?` finds the first date of a weekday, from a date on, that satisfies a rule
(`Rule.firstFrom?_eq_some_iff`), and it finds one if there is any (`Rule.exists_firstFrom?`).  So a
search that begins later finds the same date, as long as it does not begin after it
(`Rule.IsFirstFrom.of_le`). -/

namespace Timetable.Rule

variable {rule : Rule} {d e f : Date}

/-- A rule has an answer on every date that is not in the last week of the calendar. -/
theorem holds?_ne_none (h : d.number + 7 ≤ lastDay) : rule.holds? d ≠ none := by
  obtain ⟨next, hnext⟩ := Date.exists_addDays? h
  cases hm : rule.modifier with
  | none => simp [holds?, modifierHolds?, hm]
  | some m => cases m <;> simp [holds?, modifierHolds?, Modifier.holds?, hm, hnext]

/-- `e` is the first date of the weekday of `d`, from `d` on, that satisfies the rule. -/
structure IsFirstFrom (rule : Rule) (d e : Date) : Prop where
  le : d.number ≤ e.number
  weekday_eq : e.weekday = d.weekday
  holds : rule.holds? e = some true
  least : ∀ f : Date, d.number ≤ f.number → f.weekday = d.weekday → rule.holds? f = some true →
    e.number ≤ f.number

/-- Two dates of one weekday are the same or a week apart at least. -/
theorem eq_or_week_le (hle : d.number ≤ f.number) (hw : f.weekday = d.weekday) :
    f = d ∨ d.number + 7 ≤ f.number := by
  have hmod := Date.weekday_eq_weekday_iff.mp hw
  rcases Nat.eq_or_lt_of_le hle with heq | hlt
  · exact .inl (Date.number_inj.mp heq.symm)
  · right
    omega

theorem isFirstFrom_of_firstFrom? (h : rule.firstFrom? d = some e) : rule.IsFirstFrom d e := by
  fun_induction Rule.firstFrom? rule d with
  | case1 d hnone => simp at h
  | case2 d htrue =>
      obtain rfl : d = e := Option.some.inj h
      exact ⟨le_rfl, rfl, htrue, fun f hf _ _ => hf⟩
  | case3 d hfalse hend => simp at h
  | case4 d hfalse next hnext ih =>
      obtain ⟨hle, hw, hholds, hleast⟩ := ih h
      have hn := Date.addDays?_eq_some_iff.mp hnext
      have hw' := Date.weekday_addDays?_seven hnext
      refine ⟨by omega, hw.trans hw', hholds, ?_⟩
      intro f hf hfw hfh
      rcases eq_or_week_le hf hfw with rfl | hweek
      · rw [hfalse] at hfh
        cases hfh
      · exact hleast f (by omega) (hfw.trans hw'.symm) hfh

/-- If a date satisfies the rule, the search does not miss it. -/
theorem exists_firstFrom? (hle : d.number ≤ f.number) (hw : f.weekday = d.weekday)
    (hf : rule.holds? f = some true) : ∃ e, rule.firstFrom? d = some e := by
  have hlast := f.le_last
  fun_induction Rule.firstFrom? rule d with
  | case1 d hnone =>
      rcases eq_or_week_le hle hw with rfl | hweek
      · rw [hnone] at hf
        cases hf
      · exact absurd hnone (holds?_ne_none (by omega))
  | case2 d htrue => exact ⟨d, rfl⟩
  | case3 d hfalse hend =>
      rcases eq_or_week_le hle hw with rfl | hweek
      · rw [hfalse] at hf
        cases hf
      · have := Date.addDays?_eq_none_iff.mp hend
        omega
  | case4 d hfalse next hnext ih =>
      have hn := Date.addDays?_eq_some_iff.mp hnext
      rcases eq_or_week_le hle hw with rfl | hweek
      · rw [hfalse] at hf
        cases hf
      · exact ih (by omega) (hw.trans (Date.weekday_addDays?_seven hnext).symm)

namespace IsFirstFrom

theorem unique (he : rule.IsFirstFrom d e) (hf : rule.IsFirstFrom d f) : e = f :=
  Date.number_inj.mp (Nat.le_antisymm (he.least f hf.le hf.weekday_eq hf.holds)
    (hf.least e he.le he.weekday_eq he.holds))

/-- A search that begins later, but not after what was found, finds the same. -/
theorem of_le {d' : Date} (he : rule.IsFirstFrom d e) (hle : d.number ≤ d'.number)
    (hw : d'.weekday = d.weekday) (hle' : d'.number ≤ e.number) : rule.IsFirstFrom d' e :=
  ⟨hle', he.weekday_eq.trans hw.symm, he.holds,
    fun f hf hfw hfh => he.least f (hle.trans hf) (hfw.trans hw) hfh⟩

/-- A search that begins later finds nothing earlier. -/
theorem mono {d' : Date} (he : rule.IsFirstFrom d e) (hf : rule.IsFirstFrom d' f)
    (hle : d.number ≤ d'.number) (hw : d'.weekday = d.weekday) : e.number ≤ f.number :=
  he.least f (hle.trans hf.le) (hf.weekday_eq.trans hw) hf.holds

end IsFirstFrom

theorem firstFrom?_eq_some_iff : rule.firstFrom? d = some e ↔ rule.IsFirstFrom d e := by
  constructor
  · exact isFirstFrom_of_firstFrom?
  · intro he
    obtain ⟨f, hf⟩ := exists_firstFrom? he.le he.weekday_eq he.holds
    rw [hf, (isFirstFrom_of_firstFrom? hf).unique he]

end Timetable.Rule
