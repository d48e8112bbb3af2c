import AppBundle.Ordered.Interval

/-!
# What a set of intervals holds and leaves free

A set that was put together from numbers holds these numbers and no other, however
they were joined to intervals (`IntervalSet.mem_ofList`).

The gaps in a range are the numbers of the range that the set does not hold
(`IntervalSet.mem_gaps`), and they ascend.  So the first gap starts with the lowest
of them (`IntervalSet.lowest_of_head?_gaps`).
-/

namespace AppBundle

namespace Interval

variable {n low stop : Nat} {r s : Interval}

theorem mem_iff : n ∈ r ↔ r.first ≤ n ∧ n ≤ r.last := Iff.rfl

theorem first_mem (r : Interval) : r.first ∈ r := ⟨Nat.le_refl _, r.first_le_last⟩

theorem mem_singleton {m : Nat} : n ∈ singleton m ↔ n = m := by
  simp only [mem_iff, singleton]
  omega

/-- Two intervals that meet have no number between them that their hull would add. -/
theorem mem_hull (hrs : ¬ r.Apart s) (hsr : ¬ s.Apart r) : n ∈ r.hull s ↔ n ∈ r ∨ n ∈ s := by
  have hr := r.first_le_last
  have hs := s.first_le_last
  simp only [Apart] at hrs hsr
  simp only [mem_iff, hull]
  omega

theorem mem_upTo {g : Interval} (hg : g ∈ upTo low stop) : n ∈ g ↔ low ≤ n ∧ n < stop := by
  rw [upTo] at hg
  split at hg
  · cases List.mem_singleton.1 hg
    simp only [mem_iff]
    omega
  · cases hg

theorem exists_mem_upTo_iff : (∃ g ∈ upTo low stop, n ∈ g) ↔ low ≤ n ∧ n < stop := by
  constructor
  · rintro ⟨g, hg, hn⟩
    exact (mem_upTo hg).1 hn
  · rintro ⟨hlow, hstop⟩
    have hg : (⟨low, stop - 1, by omega⟩ : Interval) ∈ upTo low stop := by
      rw [upTo, dif_pos (by omega)]
      exact List.mem_singleton.2 rfl
    exact ⟨_, hg, (mem_upTo hg).2 ⟨hlow, hstop⟩⟩

theorem ascending_upTo (low stop : Nat) :
    (upTo low stop).Pairwise fun g g' => g.last < g'.first := by
  rw [upTo]
  split
  · exact List.pairwise_singleton _ _
  · exact .nil

end Interval

namespace IntervalSet

variable {n : Nat}

/-! ## Members -/

theorem exists_mem_insertList_iff {r : Interval} {ss : List Interval} :
    (∃ t ∈ insertList r ss, n ∈ t) ↔ n ∈ r ∨ ∃ s ∈ ss, n ∈ s := by
  induction ss generalizing r with
  | nil => simp [insertList]
  | cons s ss ih =>
    simp only [insertList]
    split
    · simp
    · rename_i hrs
      split
      · simp [ih, or_left_comm]
      · rename_i hsr
        simp [ih, Interval.mem_hull hrs hsr, or_assoc]

theorem mem_insert {s : IntervalSet} {m : Nat} : n ∈ s.insert m ↔ n = m ∨ n ∈ s :=
  exists_mem_insertList_iff.trans (or_congr_left Interval.mem_singleton)

theorem mem_foldl_insert {s : IntervalSet} {ns : List Nat} :
    n ∈ ns.foldl insert s ↔ n ∈ s ∨ n ∈ ns := by
  induction ns generalizing s with
  | nil => simp
  | cons m ns ih =>
    rw [List.foldl_cons, ih, mem_insert, List.mem_cons, or_comm (a := n = m), or_assoc]

theorem not_mem_empty : n ∉ (∅ : IntervalSet) := by
  rintro ⟨r, hr, -⟩
  cases hr

theorem mem_ofList {ns : List Nat} : n ∈ ofList ns ↔ n ∈ ns := by
  rw [ofList, mem_foldl_insert]
  exact or_iff_right not_mem_empty

/-! ## Gaps -/

theorem exists_mem_gapsList_iff {stop low : Nat} {ss : List Interval}
    (h : ss.Pairwise Interval.Apart) :
    (∃ g ∈ gapsList stop low ss, n ∈ g) ↔ (low ≤ n ∧ n < stop) ∧ ∀ s ∈ ss, n ∉ s := by
  induction ss generalizing low with
  | nil => simp [gapsList, Interval.exists_mem_upTo_iff]
  | cons s ss ih =>
    obtain ⟨hs, hss⟩ := List.pairwise_cons.1 h
    have hle := s.first_le_last
    rw [gapsList, List.forall_mem_cons]
    simp only [List.mem_append, or_and_right, exists_or, Interval.exists_mem_upTo_iff, ih hss]
    constructor
    · rintro (⟨hlow, hstop⟩ | ⟨⟨hlow, hstop⟩, hfree⟩)
      · -- What comes before an interval comes before all that follow it.
        refine ⟨by omega, fun hn => ?_, fun t ht hn => ?_⟩
        · have hfirst := hn.1
          omega
        · have hafter : s.last + 1 < t.first := hs t ht
          have hfirst := hn.1
          omega
      · refine ⟨by omega, fun hn => ?_, hfree⟩
        have hlast := hn.2
        omega
    · rintro ⟨⟨hlow, hstop⟩, hn, hfree⟩
      rw [Interval.mem_iff] at hn
      by_cases hbefore : n < s.first
      · exact .inl (by omega)
      · exact .inr ⟨by omega, hfree⟩

/-- The gaps hold the numbers of the range that the set does not hold. -/
theorem mem_gaps {s : IntervalSet} {first last : Nat} :
    (∃ g ∈ s.gaps first last, n ∈ g) ↔ (first ≤ n ∧ n ≤ last) ∧ n ∉ s := by
  rw [gaps, exists_mem_gapsList_iff s.apart, Nat.lt_succ_iff]
  refine and_congr_right fun _ => ?_
  constructor
  · rintro hfree ⟨r, hr, hn⟩
    exact hfree r hr hn
  · intro hn r hr hmem
    exact hn ⟨r, hr, hmem⟩

/-- The gaps ascend. -/
theorem ascending_gapsList {stop low : Nat} {ss : List Interval} (h : ss.Pairwise Interval.Apart) :
    (gapsList stop low ss).Pairwise fun g g' => g.last < g'.first := by
  induction ss generalizing low with
  | nil => exact Interval.ascending_upTo low stop
  | cons s ss ih =>
    obtain ⟨-, hss⟩ := List.pairwise_cons.1 h
    refine List.pairwise_append.2 ⟨Interval.ascending_upTo _ _, ih hss, fun g hg g' hg' => ?_⟩
    have hbefore := (Interval.mem_upTo hg).1 ⟨g.first_le_last, Nat.le_refl _⟩
    have hafter := ((exists_mem_gapsList_iff hss).1 ⟨g', hg', g'.first_mem⟩).1
    have hle := s.first_le_last
    omega

/-- The first gap starts with the lowest number of the range that the set does not hold. -/
theorem lowest_of_head?_gaps {s : IntervalSet} {first last : Nat} {g : Interval}
    (h : (s.gaps first last).head? = some g) :
    ((first ≤ g.first ∧ g.first ≤ last) ∧ g.first ∉ s) ∧
      ∀ n, first ≤ n → n ≤ last → n ∉ s → g.first ≤ n := by
  obtain ⟨gs, hgaps⟩ := List.head?_eq_some_iff.1 h
  refine ⟨mem_gaps.1 ⟨g, List.mem_of_mem_head? h, g.first_mem⟩, fun n hfirst hlast hn => ?_⟩
  obtain ⟨g', hg', hmem⟩ := mem_gaps.2 ⟨⟨hfirst, hlast⟩, hn⟩
  have hascending : (s.gaps first last).Pairwise fun g g' => g.last < g'.first :=
    ascending_gapsList s.apart
  rw [hgaps] at hg' hascending
  rcases List.mem_cons.1 hg' with rfl | hlater
  · exact hmem.1
  · have hlt := (List.pairwise_cons.1 hascending).1 g' hlater
    exact Nat.le_trans (Nat.le_trans g.first_le_last (Nat.le_of_lt hlt)) hmem.1

/-- There is no gap when the set holds all numbers of the range. -/
theorem head?_gaps_eq_none_iff {s : IntervalSet} {first last : Nat} :
    (s.gaps first last).head? = none ↔ ∀ n, first ≤ n → n ≤ last → n ∈ s := by
  rw [List.head?_eq_none_iff]
  constructor
  · intro hnil n hfirst hlast
    refine Classical.not_not.1 fun hn => ?_
    obtain ⟨g, hg, -⟩ := mem_gaps.2 ⟨⟨hfirst, hlast⟩, hn⟩
    rw [hnil] at hg
    cases hg
  · intro hall
    refine List.eq_nil_iff_forall_not_mem.2 fun g hg => ?_
    obtain ⟨⟨hfirst, hlast⟩, hn⟩ := mem_gaps.1 ⟨g, hg, g.first_mem⟩
    exact hn (hall _ hfirst hlast)

end IntervalSet

end AppBundle
