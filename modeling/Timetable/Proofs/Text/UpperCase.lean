import Mathlib.Tactic
import Timetable.Text.ToUpper

/-! # Capitals that come from ASCII letters only

Some capitals are the upper case of characters outside ASCII: `S`, for one, is that of the long s.  The
capitals in `plainCapitals` are not.  So a text becomes a word of such capitals by the rules of Unicode, or by
those for ASCII alone, exactly if it is that word with each of its letters in either case (`toUpper_eq_iff`,
`map_toUpper_eq_iff`). -/

namespace Timetable.Text

variable {c : Char} {text name : List Char}

/-- Capitals that only their own lower-case letters become. -/
def plainCapitals : List Char := ['C', 'T', 'U', 'Z']

theorem toNat_lt_of_mem_plainCapitals (h : c ∈ plainCapitals) : c.toNat < 128 := by
  have hall : plainCapitals.all (·.toNat < 128) = true := by decide
  exact of_decide_eq_true (List.all_eq_true.mp hall c h)

theorem ofNat_not_mem_plainCapitals {n : Nat} (hn : 128 ≤ n) : Char.ofNat n ∉ plainCapitals := by
  by_cases hvalid : n.isValidChar
  · rw [Char.ofNat, dif_pos hvalid]
    intro hmem
    have hlt : n < 128 := toNat_lt_of_mem_plainCapitals hmem
    omega
  · rw [Char.ofNat, dif_neg hvalid]
    decide

/-! ### The tables -/

theorem upperShifts_apart : ∀ shift ∈ upperShifts, 128 ≤ shift.range.first + shift.distance
    ∨ shift.range.first = shift.range.last
      ∧ Char.ofNat (shift.range.first + shift.distance).toNat ∉ plainCapitals := by
  decide +kernel

theorem upperExpansions_apart : ∀ row ∈ upperExpansions, ∃ code ∈ row.2, Char.ofNat code ∉ plainCapitals := by
  decide +kernel

theorem shifted_not_mem_plainCapitals (hc : 128 ≤ c.toNat) : shifted upperShifts c ∉ plainCapitals := by
  unfold shifted
  split
  · rename_i shift hfind
    have hrange : shift.range.contains c = true := by simpa using List.find?_some hfind
    have hcontains := CodeRange.contains_iff.mp hrange
    rcases upperShifts_apart shift (List.mem_of_find?_eq_some hfind) with hlarge | ⟨hsingle, hnot⟩
    · exact ofNat_not_mem_plainCapitals (by omega)
    · have hfirst : c.toNat = shift.range.first := by omega
      rwa [hfirst]
  · intro hmem
    have hlt := toNat_lt_of_mem_plainCapitals hmem
    omega

/-- What becomes nothing but plain capitals is an ASCII character. -/
theorem toNat_lt_of_upperOf (h : ∀ d ∈ upperOf c, d ∈ plainCapitals) : c.toNat < 128 := by
  by_contra hc
  unfold upperOf at h
  rw [if_neg hc] at h
  cases hlookup : upperExpansions.lookup c.toNat with
  | none =>
      rw [hlookup] at h
      exact shifted_not_mem_plainCapitals (Nat.le_of_not_lt hc) (h _ List.mem_cons_self)
  | some codes =>
      rw [hlookup] at h
      obtain ⟨before, after, hrows, -⟩ := List.lookup_eq_some_iff.mp hlookup
      have hrow : (c.toNat, codes) ∈ upperExpansions := by
        rw [hrows]
        exact List.mem_append_right before List.mem_cons_self
      obtain ⟨code, hcode, hnot⟩ := upperExpansions_apart _ hrow
      exact hnot (h _ (List.mem_map_of_mem hcode))

/-! ### The two cases of a letter -/

/-- The capital, or its lower-case letter. -/
def EitherCase (capital c : Char) : Prop := c = capital ∨ c = capital.toLower

instance (capital c : Char) : Decidable (EitherCase capital c) :=
  inferInstanceAs (Decidable (_ ∨ _))

/-- The text is the name, each of its letters in either case. -/
def InEitherCase (name text : List Char) : Prop := List.Forall₂ EitherCase name text

instance (name text : List Char) : Decidable (InEitherCase name text) :=
  inferInstanceAs (Decidable (List.Forall₂ _ _ _))

theorem toUpper_of_not_ascii (hc : 128 ≤ c.toNat) : c.toUpper = c := by
  unfold Char.toUpper
  refine dif_neg fun hletter => ?_
  have hlt : c.toNat ≤ 122 := UInt32.le_iff_toNat_le.mp hletter.2
  omega

theorem toUpper_char_eq_iff {capital : Char} (h : capital ∈ plainCapitals) :
    c.toUpper = capital ↔ EitherCase capital c := by
  have hascii : plainCapitals.all (fun capital => (List.range 128).all fun n =>
      ((Char.ofNat n).toUpper = capital ↔ EitherCase capital (Char.ofNat n))) = true := by
    decide +kernel
  have hlower : plainCapitals.all (·.toLower.toNat < 128) = true := by decide
  by_cases hc : c.toNat < 128
  · have hcase := List.all_eq_true.mp (List.all_eq_true.mp hascii capital h) c.toNat (List.mem_range.mpr hc)
    rw [Char.ofNat_toNat] at hcase
    exact of_decide_eq_true hcase
  · rw [toUpper_of_not_ascii (Nat.le_of_not_lt hc)]
    refine ⟨.inl, ?_⟩
    rintro (rfl | rfl)
    · rfl
    · exact absurd (of_decide_eq_true (List.all_eq_true.mp hlower capital h)) hc

theorem map_toUpper_eq_iff (hname : name ⊆ plainCapitals) :
    text.map Char.toUpper = name ↔ InEitherCase name text := by
  unfold InEitherCase
  induction name generalizing text with
  | nil => rw [List.map_eq_nil_iff, List.forall₂_nil_left_iff]
  | cons d name ih =>
      cases text with
      | nil => simp
      | cons c text =>
          obtain ⟨hd, hname'⟩ := List.cons_subset.mp hname
          rw [List.map_cons, List.cons.injEq, List.forall₂_cons, toUpper_char_eq_iff hd, ih hname']

/-- By Unicode a text becomes a word of plain capitals exactly if it is that word, each letter in either
case. -/
theorem toUpper_eq_iff (hname : name ⊆ plainCapitals) :
    toUpper text = name ↔ InEitherCase name text := by
  rw [← map_toUpper_eq_iff hname]
  constructor
  · rintro rfl
    refine (toUpper_of_ascii fun c hc => ?_).symm
    exact toNat_lt_of_upperOf fun d hd => hname (List.mem_flatMap.mpr ⟨c, hc, hd⟩)
  · rintro rfl
    refine toUpper_of_ascii fun c hc => ?_
    by_contra hnot
    have hmem := hname (List.mem_map_of_mem hc)
    rw [toUpper_of_not_ascii (Nat.le_of_not_lt hnot)] at hmem
    exact hnot (toNat_lt_of_mem_plainCapitals hmem)

end Timetable.Text
