import AppBundle.Delivery.Basic
import AppBundle.Proofs.Reading

/-!
# The structure of a delivery

A delivery element is accepted exactly when each of its child elements has the
shape of a mode (`Delivery.ofElement?_ok_iff`).  That asks for the kinds of the
children, not for their number: a mode may be declared twice, and so may the
conditions of the install-time mode.
-/

namespace AppBundle.Delivery

open Xml

variable {e : Element} {fastFollow : Bool} {d : Delivery}

/-! ## Children by kind -/

theorem classify_ok_iff {κ : Type} {parent : String} {kinds : List (String × κ)} {kind : κ} :
    classify parent kinds e = .ok kind ↔
      kinds.lookup e.name = some kind ∧ e.namespaceUri = distributionUri := by
  simp only [classify]
  split
  · rename_i hnone
    simp [hnone]
  · rename_i found hfound
    split
    · rename_i huri
      simp [hfound, huri]
    · rename_i huri
      simp [huri]

/-- An element of the only kind that its parent may hold has the name of that kind. -/
theorem isNamed_of_classify {parent name : String} (h : classify parent [(name, ())] e = .ok ()) :
    e.isNamed distributionUri name := by
  obtain ⟨hlookup, huri⟩ := classify_ok_iff.1 h
  obtain ⟨front, back, hkinds, -⟩ := List.lookup_eq_some_iff.1 hlookup
  have hmem : (e.name, ()) ∈ [(name, ())] := by simp [hkinds]
  exact Element.isNamed_iff.2 ⟨by simpa using hmem, huri⟩

theorem expectNoChildren_ok_iff : expectNoChildren e = .ok () ↔ e.childElements = [] := by
  simp only [expectNoChildren]
  split
  · rename_i hnil
    simp [hnil]
  · rename_i hcons
    simp [hcons]

theorem classify_installTimeKinds_ok_iff :
    classify "install-time" installTimeKinds e = .ok () ↔
      e.isNamed distributionUri "conditions" ∨ e.isNamed distributionUri "removable" := by
  rw [classify_ok_iff, Element.isNamed_iff, Element.isNamed_iff, ← or_and_right]
  refine and_congr_left' ?_
  grind [installTimeKinds]

theorem lookup_modes_iff {name : String} {mode : Mode} :
    (modes fastFollow).lookup name = some mode ↔
      (name = "install-time" ∧ mode = .installTime) ∨ (name = "on-demand" ∧ mode = .onDemand) ∨
        (fastFollow ∧ name = "fast-follow" ∧ mode = .fastFollow) := by
  cases fastFollow <;> grind [modes]

/-! ## Acceptance -/

/-- The elements that declare a mode. -/
inductive ModeShape (fastFollow : Bool) (e : Element) : Prop where
  /-- An install-time element has conditions and removable elements for children. -/
  | installTime (named : e.isNamed distributionUri "install-time")
      (children : ∀ c ∈ e.childElements,
        c.isNamed distributionUri "conditions" ∨ c.isNamed distributionUri "removable")
  /-- An on-demand element has no children. -/
  | onDemand (named : e.isNamed distributionUri "on-demand") (bare : e.childElements = [])
  /-- A fast-follow element has none either, and counts only where it is enabled. -/
  | fastFollow (enabled : fastFollow) (named : e.isNamed distributionUri "fast-follow")
      (bare : e.childElements = [])

theorem checkMode_ok_iff : checkMode fastFollow e = .ok () ↔ ModeShape fastFollow e := by
  constructor
  · intro h
    obtain ⟨mode, hmode, h⟩ := Step.ok_of_bind h
    obtain ⟨hlookup, huri⟩ := classify_ok_iff.1 hmode
    rcases lookup_modes_iff.1 hlookup with ⟨hname, rfl⟩ | ⟨hname, rfl⟩ | ⟨henabled, hname, rfl⟩
    · refine .installTime (Element.isNamed_iff.2 ⟨hname, huri⟩) ?_
      intro c hc
      exact classify_installTimeKinds_ok_iff.1 (Step.forM_ok_iff.1 h c hc)
    · exact .onDemand (Element.isNamed_iff.2 ⟨hname, huri⟩) (expectNoChildren_ok_iff.1 h)
    · exact .fastFollow henabled (Element.isNamed_iff.2 ⟨hname, huri⟩) (expectNoChildren_ok_iff.1 h)
  · intro h
    have hmode : ∀ {mode : Mode} {name : String}, e.isNamed distributionUri name →
        (modes fastFollow).lookup name = some mode →
        classify "delivery" (modes fastFollow) e = .ok mode := by
      intro mode name hnamed hlookup
      obtain ⟨rfl, huri⟩ := Element.isNamed_iff.1 hnamed
      exact classify_ok_iff.2 ⟨hlookup, huri⟩
    cases h with
    | installTime named children =>
      refine (Step.bind_ok _ (hmode named (lookup_modes_iff.2 (.inl ⟨rfl, rfl⟩)))).trans ?_
      refine Step.forM_ok_iff.2 ?_
      intro c hc
      exact classify_installTimeKinds_ok_iff.2 (children c hc)
    | onDemand named bare =>
      refine (Step.bind_ok _ (hmode named (lookup_modes_iff.2 (.inr (.inl ⟨rfl, rfl⟩))))).trans ?_
      exact expectNoChildren_ok_iff.2 bare
    | fastFollow enabled named bare =>
      refine (Step.bind_ok _
        (hmode named (lookup_modes_iff.2 (.inr (.inr ⟨enabled, rfl, rfl⟩))))).trans ?_
      exact expectNoChildren_ok_iff.2 bare

/-- A delivery element is accepted when each child declares a mode, however often. -/
theorem ofElement?_ok_iff :
    ofElement? fastFollow e = .ok d ↔
      d = ⟨e, fastFollow⟩ ∧ ∀ c ∈ e.childElements, ModeShape fastFollow c := by
  have hchecks : e.childElements.forM (checkMode fastFollow) = .ok () ↔
      ∀ c ∈ e.childElements, ModeShape fastFollow c := by
    simp only [Step.forM_ok_iff, checkMode_ok_iff]
  rw [← hchecks]
  constructor
  · intro h
    obtain ⟨⟨⟩, hall, h⟩ := Step.ok_of_bind h
    cases h
    exact ⟨rfl, hall⟩
  · rintro ⟨rfl, hall⟩
    exact Step.bind_ok _ hall

end AppBundle.Delivery
