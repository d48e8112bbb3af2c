import AppBundle.Proofs.Ordered
import AppBundle.Proofs.Reading
import AppBundle.Targeting.Dimension

/-!
# Families of siblings

The artifacts that an app is split into along a dimension are siblings: each
covers some values, none covers a value of another, and what the others cover
are its alternatives.  A `Family` is such a split of a set of values, and its
fallback is the artifact that covers no value at all.

An artifact sees its own two sets only.  But the two sets of a sibling make up
all values of the family (`Family.mem_all_targeting`), so whatever siblings read
off all values they agree on, and a value is covered by just one of them
(`Family.covers_targeting`).
-/

namespace AppBundle

open Text

/-! ## Sound targetings -/

section Sound

variable {α : Type} [LT α] [DecidableEq α] [Display α]

theorem Targeting.checkDisjoint_of_disjoint {t : Targeting α}
    (h : ∀ a ∈ t.values, a ∉ t.alternatives) (dimension : String) :
    t.checkDisjoint dimension = .ok () := by
  have hshared : t.shared? = none := by
    refine List.find?_eq_none.2 ?_
    intro a ha
    simpa using h a ha
  simp only [checkDisjoint, hshared]

namespace Matcher

variable {m : Matcher α} {t : Targeting α} {b : Bool}

theorem matches?_of_disjoint (h : ∀ a ∈ t.values, a ∉ t.alternatives) (ht : t.isEmpty = false) :
    m.matches? t = .ok (if m.isPresent then m.whenPresent t else m.whenAbsent t) := by
  simp only [matches?, t.checkDisjoint_of_disjoint h, ht]
  cases m.isPresent <;> rfl

theorem check_of_disjoint (h : ∀ a ∈ t.values, a ∉ t.alternatives) (ht : t.isEmpty = false)
    (hm : m.isPresent) : m.check t = m.checkPresent t := by
  simp only [check, t.checkDisjoint_of_disjoint h, ht, hm]
  rfl

/-- A targeting that is answered for is sound, and what the device says decides whether the
device is refused. -/
theorem check_of_matches?_ok (h : m.matches? t = .ok b) :
    m.check t = if t.isEmpty || !m.isPresent then .ok () else m.checkPresent t := by
  obtain ⟨⟨⟩, hdisjoint, -⟩ := Step.ok_of_bind h
  exact Step.bind_ok _ hdisjoint

theorem whenPresent_of_matches? (h : m.matches? t = .ok b) (ht : t.isEmpty = false)
    (hm : m.isPresent = true) : m.whenPresent t = b := by
  obtain ⟨⟨⟩, -, h⟩ := Step.ok_of_bind h
  rw [ht, hm] at h
  exact Except.ok.inj h

end Matcher

end Sound

/-! ## Families -/

/-- The members of one set that are not in another. -/
def OrderedSet.diff {α : Type} [LT α] [DecidableEq α] (s t : OrderedSet α) : OrderedSet α :=
  ⟨s.toList.filter (· ∉ t), s.ascending.filter _⟩

@[simp] theorem OrderedSet.mem_diff {α : Type} [LT α] [DecidableEq α] {s t : OrderedSet α} {a : α} :
    a ∈ s.diff t ↔ a ∈ s ∧ a ∉ t :=
  List.mem_filter.trans (and_congr_right' decide_eq_true_iff)

/-- The values that siblings cover. -/
structure Family (α : Type) [LT α] (n : Nat) where
  /-- The values of each sibling. -/
  values : Fin n → OrderedSet α
  /-- Every sibling covers a value. -/
  nonempty : ∀ i, (values i).isEmpty = false
  /-- No two siblings cover the same value. -/
  disjoint : ∀ i j, ∀ a ∈ values i, a ∈ values j → i = j

namespace Family

variable {α : Type} [LT α] {n : Nat}

theorem mem_values_iff {f : Family α n} {i j : Fin n} {a : α} (h : a ∈ f.values i) :
    a ∈ f.values j ↔ j = i := by
  constructor
  · intro hj
    exact (f.disjoint i j a h hj).symm
  · rintro rfl
    exact h

variable [LE α] [DecidableLT α] [Std.IsLinearOrder α] [Std.LawfulOrderLT α]

/-- All values that are covered. -/
def all (f : Family α n) : OrderedSet α :=
  .ofList ((List.finRange n).flatMap fun i => (f.values i).toList)

theorem mem_all {f : Family α n} {a : α} : a ∈ f.all ↔ ∃ i, a ∈ f.values i := by
  simp [all, OrderedSet.mem_ofList]

theorem isEmpty_all {f : Family α (n + 1)} : f.all.isEmpty = false := by
  obtain ⟨a, ha⟩ := OrderedSet.isEmpty_eq_false_iff.1 (f.nonempty 0)
  exact OrderedSet.isEmpty_eq_false_iff.2 ⟨a, mem_all.2 ⟨0, ha⟩⟩

variable [DecidableEq α]

/-- The targeting of a sibling. -/
def targeting (f : Family α n) (i : Fin n) : Targeting α :=
  { values := f.values i, alternatives := f.all.diff (f.values i) }

/-- The targeting of the fallback. -/
def fallback (f : Family α n) : Targeting α := { alternatives := f.all }

/-- The targeting of a sibling, or of the fallback. -/
def member (f : Family α n) : Option (Fin n) → Targeting α
  | some i => f.targeting i
  | none => f.fallback

variable {f : Family α n} {i j : Fin n} {a : α}

theorem mem_all_targeting : a ∈ (f.targeting j).all ↔ a ∈ f.all := by
  rw [Targeting.all, List.mem_append]
  simp only [targeting, OrderedSet.mem_toList, OrderedSet.mem_diff]
  constructor
  · rintro (h | h)
    · exact mem_all.2 ⟨j, h⟩
    · exact h.1
  · intro h
    by_cases hj : a ∈ f.values j
    · exact .inl hj
    · exact .inr ⟨h, hj⟩

theorem mem_all_member {k : Option (Fin n)} : a ∈ (f.member k).all ↔ a ∈ f.all := by
  cases k with
  | none => exact Iff.rfl
  | some j => exact mem_all_targeting

theorem contains_targeting : (f.targeting j).contains a = decide (a ∈ f.all) := by
  rw [Bool.eq_iff_iff, decide_eq_true_iff, ← mem_all_targeting (j := j)]
  simp [Targeting.contains, Targeting.all]

/-- Of the siblings, just the one with a value covers it. -/
theorem covers_targeting (h : a ∈ f.values i) :
    (f.targeting j).covers (some a) = decide (j = i) :=
  decide_eq_decide.2 (mem_values_iff h)

/-- A sibling meets the devices with a value that it covers. -/
theorem meets_targeting (device : List α) :
    (f.targeting j).meets device = device.any fun a => decide (a ∈ f.values j) := by
  simp only [Targeting.meets, targeting, f.nonempty]
  rfl

/-- The fallback meets the devices with no value that a sibling covers. -/
theorem meets_fallback (device : List α) :
    f.fallback.meets device = device.all fun a => decide (a ∉ f.all) := rfl

/-! ## Matching a family -/

variable {f : Family α (n + 1)}

theorem isEmpty_member (k : Option (Fin (n + 1))) : (f.member k).isEmpty = false := by
  cases k with
  | none => rw [member, Targeting.isEmpty, fallback, isEmpty_all, Bool.and_false]
  | some i => rw [member, Targeting.isEmpty, targeting, f.nonempty, Bool.false_and]

theorem disjoint_member (k : Option (Fin (n + 1))) :
    ∀ a ∈ (f.member k).values, a ∉ (f.member k).alternatives := by
  intro a ha
  cases k with
  | none => cases ha
  | some i => exact fun h => (OrderedSet.mem_diff.1 h).2 ha

variable [Display α] {m : Matcher α}

/-- A matcher answers for every member. -/
theorem matches?_member (k : Option (Fin (n + 1))) :
    m.matches? (f.member k) =
      .ok (if m.isPresent then m.whenPresent (f.member k) else m.whenAbsent (f.member k)) :=
  Matcher.matches?_of_disjoint (disjoint_member k) (isEmpty_member k)

theorem check_targeting (hm : m.isPresent) (j : Fin (n + 1)) :
    m.check (f.targeting j) = m.checkPresent (f.targeting j) :=
  Matcher.check_of_disjoint (disjoint_member (some j)) (isEmpty_member (some j)) hm

end Family

end AppBundle
