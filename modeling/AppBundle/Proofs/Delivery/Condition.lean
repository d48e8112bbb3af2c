import AppBundle.Proofs.Delivery.Structure

/-!
# How often a condition stands

A conditions element is read child by child, and each child but a feature fills
a place that was free (`ModuleConditions.add_fills`).  So when the whole element is
read, it has as many children of a kind as the conditions hold: one or none
(`ModuleConditions.length_childrenNamed_of_ofElement?`).

The bounds end there.  A country condition may list no countries, and further
conditions elements may stand beside the one that is read.
-/

namespace AppBundle.Delivery

open Xml

namespace Condition

/-- The name of the elements of a kind. -/
def Kind.element : Kind → String
  | minSdk => "min-sdk"
  | maxSdk => "max-sdk"
  | feature => "device-feature"
  | countries => "user-countries"
  | groups => "device-groups"

/-- The kind of a condition. -/
def kind : Condition → Kind
  | minSdk _ => .minSdk
  | maxSdk _ => .maxSdk
  | feature _ => .feature
  | countries _ => .countries
  | groups _ => .groups

theorem lookup_kinds_iff {name : String} {k : Kind} :
    kinds.lookup name = some k ↔ name = k.element := by
  constructor
  · intro h
    obtain ⟨front, back, hkinds, -⟩ := List.lookup_eq_some_iff.1 h
    have hmem : (name, k) ∈ kinds := by simp [hkinds]
    cases k <;> simpa [kinds, Kind.element] using hmem
  · rintro rfl
    cases k <;> rfl

theorem Kind.element_inj {k l : Kind} : k.element = l.element ↔ k = l := by
  constructor
  · intro h
    exact Option.some.inj ((lookup_kinds_iff.2 rfl).symm.trans (lookup_kinds_iff.2 h))
  · exact congrArg Kind.element

variable {e : Element} {c : Condition}

/-- A condition is read off an element of its kind. -/
theorem isNamed_kind_of_ofElement? (h : ofElement? e = .ok c) :
    e.isNamed distributionUri c.kind.element := by
  obtain ⟨k, hk, h⟩ := Step.ok_of_bind h
  obtain ⟨hlookup, huri⟩ := classify_ok_iff.1 hk
  have hnamed : e.isNamed distributionUri k.element :=
    Element.isNamed_iff.2 ⟨lookup_kinds_iff.1 hlookup, huri⟩
  cases k with
  | minSdk =>
    obtain ⟨version, -, h⟩ := Step.ok_of_bind h
    cases h
    exact hnamed
  | maxSdk =>
    obtain ⟨version, -, h⟩ := Step.ok_of_bind h
    cases h
    exact hnamed
  | feature =>
    obtain ⟨f, -, h⟩ := Step.ok_of_bind h
    cases h
    exact hnamed
  | countries =>
    obtain ⟨countries, -, h⟩ := Step.ok_of_bind h
    cases h
    exact hnamed
  | groups =>
    obtain ⟨g, -, h⟩ := Step.ok_of_bind h
    cases h
    exact hnamed

/-- An element that is read has the name of one kind. -/
theorem isNamed_of_ofElement? (h : ofElement? e = .ok c) (k : Kind) :
    e.isNamed distributionUri k.element = decide (c.kind = k) := by
  obtain ⟨hname, huri⟩ := Element.isNamed_iff.1 (isNamed_kind_of_ofElement? h)
  rw [Bool.eq_iff_iff, Element.isNamed_iff, hname, Kind.element_inj]
  simp [huri]

end Condition

/-! ## Places -/

theorem map_once_ok_iff {α β : Type} {place : Option α} {element : String} {a : α}
    {f : Option α → β} {b : β} :
    (once place element a).map f = .ok b ↔ place = none ∧ f (some a) = b := by
  cases place with
  | none => simp [once, Except.map]
  | some old => simp [once, Except.map]

variable {e : Element} {m m' : ModuleConditions} {k : Condition.Kind}

namespace ModuleConditions

/-- Whether the place of a kind is taken.  Features have no place of their own. -/
def held (m : ModuleConditions) : Condition.Kind → Bool
  | .minSdk => m.minSdk.isSome
  | .maxSdk => m.maxSdk.isSome
  | .feature => false
  | .countries => m.countries.isSome
  | .groups => m.groups.isSome

theorem held_empty : held {} k = false := by
  cases k <;> rfl

/-- A condition takes the place of its kind, which was free, and leaves the others. -/
theorem add_fills {c : Condition} (h : m.add c = .ok m') (hk : k ≠ .feature) :
    (m.held k).toNat + (if c.kind = k then 1 else 0) = (m'.held k).toNat := by
  cases c with
  | feature f =>
    cases h
    cases k <;> simp_all [held, Condition.kind]
  | _ =>
    obtain ⟨hfree, rfl⟩ := map_once_ok_iff.1 h
    cases k <;> simp_all [held, Condition.kind]

/-! ## All of them -/

theorem ofElement?_ok_iff :
    ofElement? e = .ok m ↔
      e.childElements.foldlM addElement {} = .ok m ∧ m.checkSdkRange = .ok () := by
  constructor
  · intro h
    obtain ⟨m', hall, h⟩ := Step.ok_of_bind h
    obtain ⟨⟨⟩, hrange, h⟩ := Step.ok_of_bind h
    cases h
    exact ⟨hall, hrange⟩
  · rintro ⟨hall, hrange⟩
    exact (Step.bind_ok _ hall).trans (Step.bind_ok _ hrange)

/-- A chain of conditions that is read takes a place for each element of its kind. -/
theorem countP_of_foldlM {es : List Element} (hk : k ≠ .feature)
    (h : es.foldlM addElement m = .ok m') :
    (m.held k).toNat + es.countP (·.isNamed distributionUri k.element) = (m'.held k).toNat := by
  induction es generalizing m with
  | nil =>
    cases h
    simp
  | cons e es ih =>
    rw [List.foldlM_cons] at h
    obtain ⟨m₁, hfirst, h⟩ := Step.ok_of_bind h
    obtain ⟨c, hc, hadd⟩ := Step.ok_of_bind hfirst
    have hplace := add_fills hadd hk
    rw [List.countP_cons, Condition.isNamed_of_ofElement? hc, ← ih h, ← hplace]
    simp only [decide_eq_true_eq]
    omega

/-- When conditions are read, each kind but the features stands as often as it
is held: once or not at all. -/
theorem length_childrenNamed_of_ofElement? (h : ofElement? e = .ok m) (hk : k ≠ .feature) :
    (e.childrenNamed distributionUri k.element).length = (m.held k).toNat := by
  have hcount := countP_of_foldlM hk (ofElement?_ok_iff.1 h).1
  rwa [held_empty, Bool.toNat_false, Nat.zero_add, List.countP_eq_length_filter] at hcount

theorem checkSdkRange_ok_iff : m.checkSdkRange = .ok () ↔
    ∀ low high, m.minSdk = some low → m.maxSdk = some high → low ≤ high := by
  simp only [checkSdkRange]
  split
  · rename_i low high hlow hhigh
    simp [hlow, hhigh]
  · rename_i hnone
    refine iff_of_true rfl fun low high hlow hhigh => ?_
    exact absurd hhigh (hnone low high hlow)

/-- Bounds that are read off an element are in order. -/
theorem le_of_ofElement? {low high : Int32} (h : ofElement? e = .ok m)
    (hlow : m.minSdk = some low) (hhigh : m.maxSdk = some high) : low ≤ high :=
  checkSdkRange_ok_iff.1 (ofElement?_ok_iff.1 h).2 low high hlow hhigh

end ModuleConditions

/-! ## What an accepted delivery holds -/

/-- What a delivery asks for is what its conditions do, if it has a conditions element. -/
theorem targeting?_ok_iff {d : Delivery} {t : ModuleTargeting} :
    d.targeting? = .ok t ↔
      (d.installTimeChild? "conditions" = none ∧ t = {}) ∨
        ∃ e m, d.installTimeChild? "conditions" = some e ∧
          ModuleConditions.ofElement? e = .ok m ∧ t = m.toTargeting := by
  constructor
  · intro h
    obtain ⟨m, hm, rfl⟩ := Step.ok_of_map h
    simp only [conditions?] at hm
    split at hm
    · rename_i hnone
      cases hm
      exact .inl ⟨hnone, rfl⟩
    · rename_i e hsome
      exact .inr ⟨e, m, hsome, hm, rfl⟩
  · rintro (⟨hnone, rfl⟩ | ⟨e, m, hsome, hm, rfl⟩)
    · simp only [targeting?, conditions?, hnone]
      rfl
    · simp only [targeting?, conditions?, hsome, hm]
      rfl

/-- Each child of an accepted delivery declares a mode.  When its conditions are
read, they are those of one conditions element, where each kind but the features
stands as often as it is held. -/
theorem targeting?_holds {root : Element} {fastFollow : Bool} {d : Delivery} {t : ModuleTargeting}
    (h : Delivery.ofElement? fastFollow root = .ok d) (ht : d.targeting? = .ok t) :
    (∀ c ∈ root.childElements, ModeShape fastFollow c) ∧
      ((d.installTimeChild? "conditions" = none ∧ t = {}) ∨
        ∃ e m, d.installTimeChild? "conditions" = some e ∧
          ModuleConditions.ofElement? e = .ok m ∧ t = m.toTargeting ∧
          ∀ k ≠ Condition.Kind.feature,
            (e.childrenNamed distributionUri k.element).length = (m.held k).toNat) := by
  refine ⟨(Delivery.ofElement?_ok_iff.1 h).2, ?_⟩
  rcases targeting?_ok_iff.1 ht with hnone | ⟨e, m, hsome, hm, rfl⟩
  · exact .inl hnone
  · exact .inr ⟨e, m, hsome, hm, rfl,
      fun k hk => ModuleConditions.length_childrenNamed_of_ofElement? hm hk⟩

/-- The node of a distribution element without attributes. -/
def distribution (name : String) (children : List Node) : Node :=
  .element { namespaceUri := distributionUri, name } children

/-- The node of a condition on the lowest SDK version. -/
def minSdkNode (version : Int32) : Node :=
  .element
    { namespaceUri := distributionUri, name := "min-sdk"
      attributes := [{ namespaceUri := distributionUri, name := "value",
                       item := some (.decimal version) }] } []

/-- A delivery with the app from some version on, and on demand. -/
def plainDelivery : Element where
  namespaceUri := distributionUri
  name := "delivery"
  children := [
    distribution "install-time" [distribution "conditions" [minSdkNode 30]],
    distribution "on-demand" []]

theorem targeting?_holds_plainDelivery :
    Delivery.ofElement? false plainDelivery = .ok ⟨plainDelivery, false⟩ ∧
      targeting? ⟨plainDelivery, false⟩ = .ok { minSdk := some 30 } ∧
      ∀ c ∈ plainDelivery.childElements, ModeShape false c := by
  have haccepted : Delivery.ofElement? false plainDelivery = .ok ⟨plainDelivery, false⟩ := rfl
  have hread : targeting? ⟨plainDelivery, false⟩ = .ok { minSdk := some 30 } := rfl
  exact ⟨haccepted, hread, (targeting?_holds haccepted hread).1⟩

/-- A delivery that declares a mode twice and conditions twice, the first ones
with a list of no countries. -/
def looseDelivery : Element where
  namespaceUri := distributionUri
  name := "delivery"
  children := [
    distribution "on-demand" [],
    distribution "on-demand" [],
    distribution "install-time" [
      distribution "conditions" [distribution "user-countries" []],
      distribution "conditions" [minSdkNode 30]]]

/-- The delivery is accepted and its conditions are read, without the second ones. -/
theorem targeting?_looseDelivery :
    Delivery.ofElement? false looseDelivery = .ok ⟨looseDelivery, false⟩ ∧
      (looseDelivery.childrenNamed distributionUri "on-demand").length = 2 ∧
      (looseDelivery.childrenNamed distributionUri "install-time").map
        (fun e => (e.childrenNamed distributionUri "conditions").length) = [2] ∧
      targeting? ⟨looseDelivery, false⟩ = .ok { countries := some ⟨[], false⟩ } :=
  ⟨rfl, rfl, rfl, rfl⟩

end AppBundle.Delivery
