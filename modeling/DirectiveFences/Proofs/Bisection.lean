/-
Ranges in document order, and why one look into them is enough.

`Range.isProtected` compares an offset with one range only: the last that starts
at or before it.  On ranges in document order no other range can hold the offset,
so the one look answers for all of them.  Empty ranges and ranges that touch are
allowed.
-/
import DirectiveFences.Protected.Range

namespace DirectiveFences.Range

/-- Ranges in document order: none ends before it starts, and each ends before the later ones
start. -/
structure Ordered (rs : List Range) : Prop where
  proper : ∀ r ∈ rs, r.start ≤ r.stop
  apart : rs.Pairwise fun r s => r.stop ≤ s.start

theorem Ordered.nil : Ordered [] :=
  ⟨fun _ h => absurd h List.not_mem_nil, .nil⟩

theorem Ordered.start_le {rs : List Range} (h : Ordered rs) {i j : Nat} (hij : i ≤ j)
    (hj : j < rs.length) : rs[i].start ≤ rs[j].start := by
  rcases Nat.lt_or_eq_of_le hij with hlt | rfl
  · have hi : i < rs.length := Nat.lt_trans hlt hj
    have hproper := h.proper rs[i] (List.getElem_mem hi)
    have hapart := List.pairwise_iff_getElem.mp h.apart i j hi hj hlt
    omega
  · exact Nat.le_refl _

/-- A range that starts after another one starts behind it. -/
theorem Ordered.stop_le {rs : List Range} (h : Ordered rs) {r s : Range} (hr : r ∈ rs)
    (hs : s ∈ rs) (hlt : r.start < s.start) : r.stop ≤ s.start := by
  obtain ⟨i, hi, rfl⟩ := List.mem_iff_getElem.mp hr
  obtain ⟨j, hj, rfl⟩ := List.mem_iff_getElem.mp hs
  refine List.pairwise_iff_getElem.mp h.apart i j hi hj (Nat.lt_of_not_le fun hle => ?_)
  exact absurd (h.start_le hle hi) (Nat.not_le_of_lt hlt)

/-- Ranges in document order are sorted. -/
theorem Ordered.mergeSort {rs : List Range} (h : Ordered rs) : rs.mergeSort le = rs := by
  refine List.mergeSort_of_pairwise (h.apart.imp_of_mem fun hr hs hapart => ?_)
  have := h.proper _ hr
  have := h.proper _ hs
  simp only [le, Bool.or_eq_true, Bool.and_eq_true, decide_eq_true_eq, beq_iff_eq]
  omega

/-! ## The bisection

It keeps every range left of the window starting at or before the offset, and every range right of
it starting after the offset; so when the window is empty, its place is the one looked for. -/

theorem firstAfter_spec {ranges : Array Range} (h : Ordered ranges.toList) (offset : Int) :
    ∀ (fuel lo hi : Nat), lo ≤ hi → hi ≤ ranges.size → hi - lo < fuel →
      (∀ i (_ : i < ranges.size), i < lo → (ranges[i].start : Int) ≤ offset) →
      (∀ i (_ : i < ranges.size), hi ≤ i → offset < ranges[i].start) →
      firstAfter ranges offset fuel lo hi ≤ ranges.size ∧
        ∀ i (_ : i < ranges.size),
          i < firstAfter ranges offset fuel lo hi ↔ (ranges[i].start : Int) ≤ offset := by
  intro fuel
  induction fuel with
  | zero => intro lo hi _ _ hfuel; omega
  | succ fuel ih =>
      intro lo hi hle hsize hfuel hleft hright
      unfold firstAfter
      split
      · have hmid : (lo + hi) / 2 < ranges.size := by omega
        simp only [Array.getElem?_eq_getElem hmid]
        have hsorted : ∀ {i j : Nat} (_ : i ≤ j) (hj : j < ranges.size),
            (ranges[i].start : Int) ≤ ranges[j].start := by
          intro i j hij hj
          have := h.start_le hij (by simpa using hj)
          simpa using this
        split
        · rename_i hbelow
          refine ih lo _ (by omega) (by omega) (by omega) hleft ?_
          intro i hi' hmi
          have := hsorted hmi hi'
          omega
        · rename_i hbelow
          refine ih _ hi (by omega) hsize (by omega) ?_ hright
          intro i hi' him
          have := hsorted (Nat.le_of_lt_succ him) hmid
          omega
      · refine ⟨by omega, fun i hi' => ⟨fun hlt => hleft i hi' hlt, fun hstart => ?_⟩⟩
        refine Nat.lt_of_not_le fun hge => ?_
        have := hright i hi' (by omega)
        omega

/-- On ranges in document order, bisection finds out whether any of them holds an offset. -/
theorem isProtected_iff_exists {ranges : Array Range} (h : Ordered ranges.toList) (offset : Int) :
    isProtected ranges offset = true ↔ ∃ r ∈ ranges.toList, r.holds offset = true := by
  obtain ⟨hle, hiff⟩ := firstAfter_spec h offset (ranges.size + 1) 0 ranges.size (Nat.zero_le _)
    (Nat.le_refl _) (by omega) (fun i _ hi => absurd hi (Nat.not_lt_zero i))
    (fun i hi hge => absurd hi (by omega))
  unfold isProtected
  generalize firstAfter ranges offset (ranges.size + 1) 0 ranges.size = k at hle hiff
  -- a range that holds the offset starts at or before it, so it stands left of `k`
  have hbefore : ∀ {i : Nat} (hi : i < ranges.size), ranges[i].holds offset = true → i < k := by
    intro i hi hholds
    simp only [holds, Bool.and_eq_true, decide_eq_true_eq] at hholds
    exact (hiff i hi).mpr hholds.1
  cases k with
  | zero =>
      refine ⟨fun hfalse => absurd hfalse Bool.false_ne_true, ?_⟩
      rintro ⟨r, hr, hholds⟩
      obtain ⟨i, hi, rfl⟩ := List.getElem_of_mem hr
      exact absurd (hbefore (by simpa using hi) (by simpa using hholds)) (Nat.not_lt_zero i)
  | succ last =>
      have hlast : last < ranges.size := by omega
      simp only [Array.getElem?_eq_getElem hlast]
      refine ⟨fun hholds => ⟨ranges[last], by simp, hholds⟩, ?_⟩
      rintro ⟨r, hr, hholds⟩
      obtain ⟨i, hi, rfl⟩ := List.getElem_of_mem hr
      have hisize : i < ranges.size := by simpa using hi
      have hilast : i < last + 1 := hbefore hisize (by simpa using hholds)
      have hstart : (ranges[last].start : Int) ≤ offset :=
        (hiff last hlast).mp (Nat.lt_succ_self last)
      rcases Nat.lt_or_eq_of_le (Nat.le_of_lt_succ hilast) with hlt | rfl
      · -- a later range starts after this one ends, that is, after the offset
        have hapart := List.pairwise_iff_getElem.mp h.apart i last hi (by simpa using hlast) hlt
        simp only [holds, Bool.and_eq_true, decide_eq_true_eq] at hholds
        simp only [Array.getElem_toList] at hapart hholds
        omega
      · simpa using hholds

end DirectiveFences.Range
