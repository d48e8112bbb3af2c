/-!
# Sets of numbers as intervals

A finite set of numbers is kept as its intervals, in ascending order and each as
long as it can be: at least one number is missing between two of them.  So a number
that is added may make an interval longer, or join two of them.

`IntervalSet.gaps` lists the intervals of a range that a set leaves free.
-/

namespace AppBundle

/-- The numbers from one to another, both included. -/
structure Interval where
  /-- The first number. -/
  first : Nat
  /-- The last number. -/
  last : Nat
  /-- There is at least one number. -/
  first_le_last : first ≤ last
deriving DecidableEq, Repr

namespace Interval

instance : Membership Nat Interval := ⟨fun r n => r.first ≤ n ∧ n ≤ r.last⟩

/-- The interval of one number. -/
def singleton (n : Nat) : Interval := ⟨n, n, Nat.le_refl n⟩

/-- The shortest interval that holds two others. -/
def hull (r s : Interval) : Interval where
  first := min r.first s.first
  last := max r.last s.last
  first_le_last :=
    Nat.le_trans (Nat.min_le_left ..) (Nat.le_trans r.first_le_last (Nat.le_max_left ..))

/-- One interval ends before the other starts, and a number is missing between them. -/
def Apart (r s : Interval) : Prop := r.last + 1 < s.first

instance (r s : Interval) : Decidable (r.Apart s) := inferInstanceAs (Decidable (_ < _))

/-- The numbers from `low` on, up to `stop` and without it. -/
def upTo (low stop : Nat) : List Interval :=
  if h : low < stop then [⟨low, stop - 1, Nat.le_pred_of_lt h⟩] else []

end Interval

/-- A finite set of numbers, held as its intervals. -/
structure IntervalSet where
  /-- The intervals, ascending. -/
  intervals : List Interval
  /-- A number is missing between any two. -/
  apart : intervals.Pairwise Interval.Apart

namespace IntervalSet

instance : EmptyCollection IntervalSet := ⟨⟨[], .nil⟩⟩

instance : Membership Nat IntervalSet := ⟨fun s n => ∃ r ∈ s.intervals, n ∈ r⟩

/-! ## Insertion -/

/-- The place of an interval among others; it takes in those that it meets. -/
def insertList (r : Interval) : List Interval → List Interval
  | [] => [r]
  | s :: ss =>
    if r.Apart s then r :: s :: ss
    else if s.Apart r then s :: insertList r ss
    else insertList (r.hull s) ss

theorem lt_first_of_mem_insertList {bound : Nat} {r t : Interval} {ss : List Interval}
    (hr : bound < r.first) (hss : ∀ s ∈ ss, bound < s.first) (ht : t ∈ insertList r ss) :
    bound < t.first := by
  induction ss generalizing r with
  | nil =>
    cases List.mem_singleton.1 ht
    exact hr
  | cons s ss ih =>
    have ⟨hs, hrest⟩ := List.forall_mem_cons.1 hss
    simp only [insertList] at ht
    split at ht
    · rcases List.mem_cons.1 ht with rfl | ht
      · exact hr
      · exact hss t ht
    · split at ht
      · rcases List.mem_cons.1 ht with rfl | ht
        · exact hs
        · exact ih hr hrest ht
      · exact ih (Nat.lt_min.2 ⟨hr, hs⟩) hrest ht

theorem apart_insertList {r : Interval} {ss : List Interval} (h : ss.Pairwise Interval.Apart) :
    (insertList r ss).Pairwise Interval.Apart := by
  induction ss generalizing r with
  | nil => exact List.pairwise_singleton _ _
  | cons s ss ih =>
    have ⟨hs, hss⟩ := List.pairwise_cons.1 h
    simp only [insertList]
    split
    · rename_i hrs
      refine List.pairwise_cons.2 ⟨List.forall_mem_cons.2 ⟨hrs, fun t ht => ?_⟩, h⟩
      have hst : s.last + 1 < t.first := hs t ht
      have hle := s.first_le_last
      simp only [Interval.Apart] at hrs ⊢
      omega
    · split
      · rename_i hsr
        exact List.pairwise_cons.2 ⟨fun t => lt_first_of_mem_insertList hsr hs, ih hss⟩
      · exact ih hss

/-- The set with one more number. -/
def insert (s : IntervalSet) (n : Nat) : IntervalSet :=
  ⟨insertList (.singleton n) s.intervals, apart_insertList s.apart⟩

/-- The set of the numbers of a list. -/
def ofList (ns : List Nat) : IntervalSet := ns.foldl insert ∅

/-! ## Gaps -/

/-- What intervals leave free of the numbers from `low` on, up to `stop` and without it. -/
def gapsList (stop : Nat) : Nat → List Interval → List Interval
  | low, [] => Interval.upTo low stop
  | low, s :: ss => Interval.upTo low (min stop s.first) ++ gapsList stop (max low (s.last + 1)) ss

/-- The intervals of a range that the set leaves free, ascending. -/
def gaps (s : IntervalSet) (first last : Nat) : List Interval :=
  gapsList (last + 1) first s.intervals

end IntervalSet

end AppBundle
