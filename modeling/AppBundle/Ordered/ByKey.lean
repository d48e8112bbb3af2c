/-!
# Orders read off a key

A type whose members have a key can borrow the order of the keys.  The order is
linear when the key tells any two members apart and the strict order of the
keys is asymmetric, leaves no two keys incomparable, and has a transitive
complement.
-/

namespace AppBundle.ByKey

variable {α β : Type} [LT α] [LE α] [LT β]

/-- The order of `α` is the order of the keys. -/
structure Ordered (key : α → β) : Prop where
  /-- Members with the same key are the same. -/
  key_inj : ∀ a b, key a = key b → a = b
  /-- The strict order compares the keys. -/
  lt_iff : ∀ a b : α, a < b ↔ key a < key b
  /-- The weak order excludes the reversed strict order. -/
  le_iff : ∀ a b : α, a ≤ b ↔ ¬ b < a

theorem isLinearOrder {key : α → β} (h : Ordered key)
    (asymm : ∀ x y : β, x < y → ¬ y < x)
    (trans : ∀ x y z : β, ¬ x < y → ¬ y < z → ¬ x < z)
    (tri : ∀ x y : β, ¬ x < y → ¬ y < x → x = y) : Std.IsLinearOrder α where
  le_refl a := by
    rw [h.le_iff, h.lt_iff]
    exact fun hlt => asymm _ _ hlt hlt
  le_trans a b c := by
    simp only [h.le_iff, h.lt_iff]
    exact fun hba hcb => trans _ _ _ hcb hba
  le_antisymm a b := by
    simp only [h.le_iff, h.lt_iff]
    exact fun hba hab => h.key_inj _ _ (tri _ _ hab hba)
  le_total a b := by
    simp only [h.le_iff, h.lt_iff]
    by_cases hlt : key b < key a
    · exact .inr (asymm _ _ hlt)
    · exact .inl hlt

theorem lawfulOrderLT {key : α → β} (h : Ordered key)
    (asymm : ∀ x y : β, x < y → ¬ y < x) : Std.LawfulOrderLT α where
  lt_iff a b := by
    simp only [h.le_iff, h.lt_iff, Classical.not_not]
    exact ⟨fun hlt => ⟨asymm _ _ hlt, hlt⟩, fun hlt => hlt.2⟩

end AppBundle.ByKey
