import Timetable.Proofs.Occurrence.Reach

/-! # How the candidates are arranged

The candidates of a block with entries are one for each of its times together with each of its entries.
They stand in the order of the times, and at each time in the order in which the weekdays of the entries
follow from the cursor's date; entries of one weekday stay in the order of the block
(`Date.entriesAhead`).  Each candidate is after the cursor, at its time and at the cursor's offset, and on
a date that satisfies its entry (`Block.forall₂_follows`).  As no list of a block or plan is empty,
there is always an earliest candidate (`Plan.exists_earliest?_candidates?`). -/

namespace Timetable

/-- The number of days, from 0 to 6, from a date to the next one on the weekday of the entry. -/
def Entry.daysFrom (e : Entry) (d : Date) : Nat :=
  (e.weekday.index + 7 - d.weekday.index) % 7

/-- The entries in the order in which their weekdays follow from a date on; those of one weekday stay in
their order. -/
def Date.entriesAhead (d : Date) (es : List Entry) : List Entry :=
  es.mergeSort fun e f => decide (e.daysFrom d ≤ f.daysFrom d)

/-- The instant is after the cursor and at its offset, at the given time of day, and on a date that
satisfies the entry. -/
def Entry.Follows (e : Entry) (parity : Option Parity) (cursor : Instant) (time : TimeOfDay)
    (t : Instant) : Prop :=
  cursor < t ∧ t.offset = cursor.offset ∧ t.time = time ∧ e.Meets parity t.date

/-! ### Lists sorted by a key -/

section Keys

variable {α : Type} (key : α → Nat)

/-- A list that is sorted by a key is known when, for each key, the members with this key are. -/
theorem eq_of_filter_key_eq : ∀ {xs ys : List α}, xs.Pairwise (key · ≤ key ·) →
    ys.Pairwise (key · ≤ key ·) →
      (∀ k, xs.filter (fun x => decide (key x = k)) = ys.filter fun y => decide (key y = k)) → xs = ys
  | [], [], _, _, _ => rfl
  | [], y :: ys, _, _, h => by simpa using h (key y)
  | x :: xs, [], _, _, h => by simpa using h (key x)
  | x :: xs, y :: ys, hxs, hys, h => by
      obtain ⟨hx, hxs'⟩ := List.pairwise_cons.mp hxs
      obtain ⟨hy, hys'⟩ := List.pairwise_cons.mp hys
      have hle {z w : α} {zs ws : List α} (hws : ∀ v ∈ ws, key w ≤ key v)
          (heq : (z :: zs).filter (fun v => decide (key v = key z))
            = (w :: ws).filter fun v => decide (key v = key z)) : key w ≤ key z := by
        have hz : z ∈ (w :: ws).filter fun v => decide (key v = key z) := by
          rw [← heq]
          simp
        rcases List.mem_cons.mp (List.mem_of_mem_filter hz) with rfl | hz
        · exact le_rfl
        · exact hws z hz
      -- the first member of each list has the least key of both
      have hkey : key x = key y := le_antisymm (hle hx (h (key y)).symm) (hle hy (h (key x)))
      have hhead := h (key x)
      simp only [List.filter_cons, hkey, decide_true, if_true, List.cons.injEq] at hhead
      obtain rfl := hhead.1
      have htail : xs = ys := by
        refine eq_of_filter_key_eq hxs' hys' fun k => ?_
        have hk := h k
        rw [List.filter_cons, List.filter_cons] at hk
        split at hk
        · exact (List.cons.inj hk).2
        · exact hk
      rw [htail]

/-- Sorting by a key keeps the members with one key in their order. -/
theorem filter_key_mergeSort (xs : List α) (k : Nat) :
    (xs.mergeSort fun x y => decide (key x ≤ key y)).filter (fun x => decide (key x = k))
      = xs.filter fun x => decide (key x = k) := by
  have hsorted : (xs.filter fun x => decide (key x = k)).Pairwise
      fun x y => decide (key x ≤ key y) = true := by
    refine List.pairwise_of_forall_mem_list fun x hx y hy => ?_
    have hx := (List.mem_filter.mp hx).2
    have hy := (List.mem_filter.mp hy).2
    simp only [decide_eq_true_eq] at hx hy ⊢
    omega
  have hsublist := List.sublist_mergeSort
    (by simp only [decide_eq_true_eq]; omega)
    (by simp only [Bool.or_eq_true, decide_eq_true_eq]; omega) hsorted List.filter_sublist
  have hfilter := hsublist.filter fun x => decide (key x = k)
  rw [List.filter_filter] at hfilter
  simp only [Bool.and_self] at hfilter
  exact (hfilter.eq_of_length ((List.mergeSort_perm xs _).filter _).length_eq.symm).symm

theorem flatMap_range_ite (k : Nat) (xs : List α) (n : Nat) :
    ((List.range n).flatMap fun j => if j = k then xs else []) = if k < n then xs else [] := by
  induction n with
  | zero => rfl
  | succ n ih =>
      rw [List.range_succ, List.flatMap_append, ih, List.flatMap_singleton]
      by_cases hk : k < n
      · rw [if_pos hk, if_neg (by omega), if_pos (by omega), List.append_nil]
      · rw [if_neg hk, List.nil_append]
        simp only [show n = k ↔ k < n + 1 by omega]

/-- The members with each key in turn, from the least key on, are the sorted list. -/
theorem flatMap_filter_key {xs : List α} {n : Nat} (h : ∀ x ∈ xs, key x < n) :
    (List.range n).flatMap (fun k => xs.filter fun x => decide (key x = k))
      = xs.mergeSort fun x y => decide (key x ≤ key y) := by
  apply eq_of_filter_key_eq key
  · rw [List.pairwise_flatMap]
    refine ⟨fun k _ => List.pairwise_of_forall_mem_list fun x hx y hy => ?_,
      List.pairwise_lt_range.imp fun hlt x hx y hy => ?_⟩
    · have hx := of_decide_eq_true (List.mem_filter.mp hx).2
      have hy := of_decide_eq_true (List.mem_filter.mp hy).2
      omega
    · have hx := of_decide_eq_true (List.mem_filter.mp hx).2
      have hy := of_decide_eq_true (List.mem_filter.mp hy).2
      omega
  · refine (List.pairwise_mergeSort ?_ ?_ xs).imp of_decide_eq_true
    · simp only [decide_eq_true_eq]
      omega
    · simp only [Bool.or_eq_true, decide_eq_true_eq]
      omega
  · intro k
    have hpart (j : Nat) :
        (xs.filter fun x => decide (key x = j)).filter (fun x => decide (key x = k))
          = if j = k then xs.filter fun x => decide (key x = k) else [] := by
      rw [List.filter_filter]
      split
      · rename_i hjk
        simp only [hjk, Bool.and_self]
      · rename_i hjk
        rw [List.filter_eq_nil_iff]
        intro x _
        rw [Bool.and_eq_true, decide_eq_true_iff, decide_eq_true_iff]
        omega
    rw [filter_key_mergeSort, List.filter_flatMap]
    simp only [hpart]
    rw [flatMap_range_ite]
    split
    · rfl
    · rename_i hk
      refine (List.filter_eq_nil_iff.mpr fun x hx => ?_).symm
      have := h x hx
      rw [decide_eq_true_iff]
      omega

end Keys

/-! ### One candidate for each time and entry -/

/-- The entries for a weekday move a date on, one after the other, each to a date that satisfies it. -/
theorem Date.forall₂_settle? {parity : Option Parity} {es : List Entry} {d : Date} {found : List Date}
    (h : settle? parity es d = some found) :
    List.Forall₂ (fun e x => d.number ≤ x.number ∧ e.Meets parity x)
      (es.filter fun e => decide (e.weekday = d.weekday)) found := by
  induction es generalizing d found with
  | nil =>
      obtain rfl : [] = found := Option.some.inj h
      exact .nil
  | cons e es ih =>
      by_cases hw : e.weekday = d.weekday
      · obtain ⟨x, xs, hx, hxs, rfl⟩ := (settle?_cons_eq_some_iff hw).mp h
        rw [List.filter_cons_of_pos (by simpa using hw)]
        refine .cons ⟨hx.le, hw.trans hx.weekday_eq.symm, hx.holds⟩ ?_
        have hrest := ih hxs
        simp only [hx.weekday_eq] at hrest
        exact hrest.imp fun f y hy => ⟨hx.le.trans hy.1, hy.2⟩
      · rw [settle?_cons_of_ne hw] at h
        rw [List.filter_cons_of_neg (by simpa using hw)]
        exact ih h

namespace Instant

variable {cursor : Instant} {time : TimeOfDay} {d : Date} {ds : List Date}

/-- The seven dates come in the order of the days from the cursor's date, from 0 to 6. -/
theorem forall₂_datesAfter? (h : cursor.datesAfter? time = some ds) :
    List.Forall₂ (fun days d => days < 7 ∧ d ∈ ds
      ∧ d.number = cursor.date.number + cursor.daysAhead time days) (List.range 7) ds := by
  have hnumbers : List.Forall₂ (fun days d => cursor.date.number + cursor.daysAhead time days
      = Date.number d) (List.range 7) ds := by
    have heq := (datesAfter?_eq_some_iff.mp h).symm
    rwa [← List.forall₂_eq_eq_eq, List.forall₂_map_left_iff, List.forall₂_map_right_iff] at heq
  obtain ⟨hlength, hzip⟩ := List.forall₂_iff_zip.mp hnumbers
  refine List.forall₂_iff_zip.mpr ⟨hlength, fun hmem => ?_⟩
  obtain ⟨hdays, hd⟩ := List.of_mem_zip hmem
  exact ⟨List.mem_range.mp hdays, hd, (hzip hmem).symm⟩

theorem weekday_eq_iff_daysFrom {e : Entry} {days : Nat} (hdays : days < 7)
    (hd : d.number = cursor.date.number + cursor.daysAhead time days) :
    e.weekday = d.weekday ↔ e.daysFrom cursor.date = days := by
  have he := e.weekday.index_lt
  have hone := cursor.date.one_le
  have hcursor := Date.weekday_eq_iff.mp (rfl : cursor.date.weekday = cursor.date.weekday)
  have hindex := Date.weekday_eq_iff.mp (rfl : d.weekday = d.weekday)
  rw [← Weekday.index_inj, Entry.daysFrom]
  unfold daysAhead at hd
  split at hd <;> omega

end Instant

namespace Block

variable {b : Block} {cursor : Instant} {time : TimeOfDay} {cs : List Instant} {es : List Entry}
  {dates : List Date}

/-- At one time of day, the dates are one for each entry, in the order in which the entries come. -/
theorem forall₂_candidateDates? (hdays : b.days = some es)
    (h : b.candidateDates? cursor time = some dates) :
    List.Forall₂ (fun e x => cursor < ⟨x, time, cursor.offset⟩ ∧ e.Meets b.weeks x)
      (cursor.date.entriesAhead es) dates := by
  obtain ⟨ds, hds, hall, rfl⟩ := (candidateDates?_eq_some_iff hdays).mp h
  have hlt (e : Entry) (_ : e ∈ es) : e.daysFrom cursor.date < 7 := Nat.mod_lt _ (by decide)
  rw [Date.entriesAhead, ← flatMap_filter_key (fun e : Entry => e.daysFrom cursor.date) hlt]
  refine List.rel_flatMap (Instant.forall₂_datesAfter? hds) ?_
  rintro days d ⟨hlt, hd, hnumber⟩
  obtain ⟨found, hfound⟩ := hall d hd
  have hsettled := Date.forall₂_settle? hfound
  simp only [Instant.weekday_eq_iff_daysFrom hlt hnumber] at hsettled
  simp only [hfound, Option.getD_some]
  have hafter := Instant.lt_on_iff.mp (Instant.lt_of_mem_datesAfter? hds hd)
  exact hsettled.imp fun e x hx => ⟨Instant.lt_on_iff.mpr (by omega), hx.2⟩

/-- The candidates are one for each time and entry. -/
theorem forall₂_follows (hdays : b.days = some es) (h : b.candidates? cursor = some cs) :
    List.Forall₂ (fun pair t => pair.2.Follows b.weeks cursor pair.1 t)
      (b.times ×ˢ cursor.date.entriesAhead es) cs := by
  obtain ⟨hall, rfl⟩ := candidates?_eq_some_iff.mp h
  have htimes : List.Forall₂ (fun time time' => time = time' ∧ time ∈ b.times) b.times b.times :=
    List.forall₂_same.mpr fun time htime => ⟨rfl, htime⟩
  refine List.rel_flatMap htimes ?_
  rintro time _ ⟨rfl, htime⟩
  obtain ⟨dates, hdates⟩ := hall time htime
  change List.Forall₂ _ ((cursor.date.entriesAhead es).map fun e => (time, e))
    ((b.datesFor cursor time).map fun date => (⟨date, time, cursor.offset⟩ : Instant))
  rw [datesFor, hdates, Option.getD_some, List.forall₂_map_left_iff, List.forall₂_map_right_iff]
  exact (forall₂_candidateDates? hdays hdates).imp fun e x hx => ⟨hx.1, rfl, rfl, hx.2⟩

end Block

/-- The lists of a plan's blocks are not empty, so that there is an earliest candidate. -/
theorem Plan.exists_earliest?_candidates? {p : Plan} {c : Instant} {all : List Instant}
    (h : p.candidates? c = some all) : ∃ t, earliest? all = some t := by
  obtain ⟨t, ht⟩ := exists_nextAfter?_iff.mpr (candidates?_eq_some_iff.mp h).1
  rw [nextAfter?, h] at ht
  exact ⟨t, ht⟩

namespace Block

/-- If a block with entries has candidates after a cursor, they are one for each of its times with each of
its entries.  They come in the order of the times and, at each of these, in that of the entries ahead of
the cursor's date.  Each is after the cursor, at the cursor's offset and at its time, and satisfies its
entry.  So there are some, and of the candidates of any plan there is an earliest one. -/
theorem candidates?_onePerPair {b : Block} {cursor : Instant} {cs : List Instant} {es : List Entry}
    (hdays : b.days = some es) (h : b.candidates? cursor = some cs) :
    cs.length = b.times.length * es.length
      ∧ List.Forall₂ (fun pair t => pair.2.Follows b.weeks cursor pair.1 t)
          (b.times ×ˢ cursor.date.entriesAhead es) cs
      ∧ cs ≠ []
      ∧ ∀ (p : Plan) (c : Instant) (all : List Instant), p.candidates? c = some all →
          ∃ t, earliest? all = some t := by
  have hpairs := forall₂_follows hdays h
  refine ⟨?_, hpairs, candidates?_ne_nil h, fun p c all => Plan.exists_earliest?_candidates?⟩
  rw [← hpairs.length_eq, List.length_product, Date.entriesAhead, List.length_mergeSort]

/-- On Wednesday, the 9th of June 2021, at one: Wednesdays come before Mondays at both times, also at one,
where the Wednesday is a later one.  In odd weeks there is no last Monday before the 30th of August, and
from there the entry for all Mondays goes on. -/
theorem candidates?_onePerPair_mondaysAndWednesdays :
    let es : List Entry := [⟨.monday, some .last⟩, ⟨.wednesday, none⟩, ⟨.monday, none⟩]
    let block : Block := ⟨[.onTheHour 18, .onTheHour 13], some es, some .odd, by decide, by simp [es]⟩
    let cursor : Instant := ⟨⟨737950, by decide, by decide⟩, .onTheHour 13, .utc⟩
    ∃ cs, block.candidates? cursor = some cs
      ∧ cs.map (·.date.number) = [737950, 738032, 738032, 737964, 738032, 738032]
      ∧ cursor.date.entriesAhead es = [⟨.wednesday, none⟩, ⟨.monday, some .last⟩, ⟨.monday, none⟩]
      ∧ cs.length = 2 * 3
      ∧ List.Forall₂ (fun pair t => pair.2.Follows block.weeks cursor pair.1 t)
          (block.times ×ˢ cursor.date.entriesAhead es) cs
      ∧ ∃ t, earliest? cs = some t := by
  intro es block cursor
  have hfound : (block.candidates? cursor).map (·.map (·.date.number))
      = some [737950, 738032, 738032, 737964, 738032, 738032] := by decide +kernel
  obtain ⟨cs, hcs, hdates⟩ := Option.map_eq_some_iff.mp hfound
  obtain ⟨hlength, hpairs, -, hearliest⟩ := candidates?_onePerPair rfl hcs
  refine ⟨cs, hcs, hdates, by cbv, hlength, hpairs, hearliest (.single block) cursor cs ?_⟩
  rw [Plan.candidates?_single, hcs]

end Block

end Timetable
