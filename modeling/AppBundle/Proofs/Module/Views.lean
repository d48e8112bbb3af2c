import AppBundle.Module.Install
import AppBundle.Proofs.Delivery.Gathered
import AppBundle.Proofs.Module.Targeting

/-!
# Two views of a delivery

Whether a module comes with the app (`Module.install?`) and under which conditions
(`Module.targeting?`) are read off one delivery element, each in its own way.  For a
module other than the base the two agree (`Module.install?_targeting?`): it has
conditions where it comes with the app under conditions, and only there, and they are
those that the first conditions element of the first install-time element states.

A delivery element that is accepted declares a mode unless it is empty
(`Delivery.hasMode_iff`), so an empty one is the only cause of the error that no mode
is declared.
-/

namespace AppBundle

open Xml Delivery

/-! ## Modes of an accepted delivery -/

namespace Delivery

variable {e : Element} {fastFollow : Bool} {d : Delivery}

theorem isSome_mode?_iff {name : String} :
    (d.mode? name).isSome ↔ ∃ c ∈ d.element.childElements, c.isNamed distributionUri name := by
  rw [mode?, Element.childNamed?, List.find?_isSome]

/-- An accepted delivery declares a mode when it has a child. -/
theorem hasMode_iff (h : ∀ c ∈ d.element.childElements, ModeShape d.fastFollow c) :
    d.hasMode ↔ d.element.childElements ≠ [] := by
  simp only [hasMode, hasInstallTime, hasOnDemand, hasFastFollow, Bool.or_eq_true,
    Bool.and_eq_true, isSome_mode?_iff]
  constructor
  · rintro ((⟨c, hc, -⟩ | ⟨c, hc, -⟩) | ⟨-, c, hc, -⟩) <;> exact List.ne_nil_of_mem hc
  · intro hne
    obtain ⟨c, hc⟩ := List.exists_mem_of_ne_nil _ hne
    cases h c hc with
    | installTime named _ => exact .inl (.inl ⟨c, hc, named⟩)
    | onDemand named _ => exact .inl (.inr ⟨c, hc, named⟩)
    | fastFollow enabled named _ => exact .inr ⟨enabled, c, hc, named⟩

/-! ## Faults of the structure -/

/-- A fault of the children of a delivery, which is none of a missing mode. -/
def IsStructural (error : BundleError) : Prop :=
  ∀ name, error ≠ .invalidBundle (.noDeliveryMode name)

theorem isStructural_of_classify {κ : Type} {parent : String} {kinds : List (String × κ)}
    {error : BundleError} (h : classify parent kinds e = .error error) : IsStructural error := by
  intro name hname
  subst hname
  simp only [classify] at h
  split at h
  · cases h
  · split at h
    · cases h
    · cases h

theorem isStructural_of_expectNoChildren {error : BundleError}
    (h : expectNoChildren e = .error error) : IsStructural error := by
  intro name hname
  subst hname
  simp only [expectNoChildren] at h
  split at h
  · cases h
  · cases h

theorem isStructural_of_checkMode {error : BundleError}
    (h : checkMode fastFollow e = .error error) : IsStructural error := by
  rcases Step.error_of_bind h with h | ⟨mode, -, h⟩
  · exact isStructural_of_classify h
  · cases mode with
    | installTime =>
      obtain ⟨c, -, hc⟩ := Step.error_of_forM h
      exact isStructural_of_classify hc
    | onDemand => exact isStructural_of_expectNoChildren h
    | fastFollow => exact isStructural_of_expectNoChildren h

theorem isStructural_of_ofElement? {error : BundleError}
    (h : ofElement? fastFollow e = .error error) : IsStructural error := by
  rcases Step.error_of_bind h with h | ⟨_, -, h⟩
  · obtain ⟨c, -, hc⟩ := Step.error_of_forM h
    exact isStructural_of_checkMode hc
  · cases h

end Delivery

/-! ## The delivery element -/

/-- The delivery element of a manifest. -/
def Manifest.deliveryElement? (m : Manifest) : Option Element :=
  m.module?.bind (·.childNamed? distributionUri "delivery")

theorem Manifest.delivery?_eq (m : Manifest) (fastFollow : Bool) :
    m.delivery? fastFollow = match m.deliveryElement? with
      | some e => (Delivery.ofElement? fastFollow e).map some
      | none => .ok none := rfl

/-- The lowest SDK version that a conditions element gives, or that of the manifest where
the element gives none. -/
def Manifest.GivesLowest (m : Manifest) (e : Element) (v : Int32) : Prop :=
  (∃ child ∈ e.childrenNamed distributionUri "min-sdk", GivesInteger child "value" v) ∨
    (e.childrenNamed distributionUri "min-sdk" = [] ∧ m.minSdk? = .ok (some v))

namespace Module

variable {m : Module} {d : Delivery}

theorem delivery?_eq_none_iff : m.delivery? = .ok none ↔ m.manifest.deliveryElement? = none := by
  rw [delivery?, Manifest.delivery?_eq]
  cases m.manifest.deliveryElement? with
  | none => simp
  | some e =>
    cases hread : Delivery.ofElement? m.context.fastFollowEnabled e <;> simp [hread, Except.map]

theorem delivery?_eq_some_iff :
    m.delivery? = .ok (some d) ↔ ∃ e, m.manifest.deliveryElement? = some e ∧
      Delivery.ofElement? m.context.fastFollowEnabled e = .ok d := by
  rw [delivery?, Manifest.delivery?_eq]
  cases m.manifest.deliveryElement? with
  | none => simp
  | some e =>
    cases hread : Delivery.ofElement? m.context.fastFollowEnabled e <;> simp [hread, Except.map]

/-- Each child of a delivery that was accepted declares a mode. -/
theorem modeShape_of_delivery? (h : m.delivery? = .ok (some d)) :
    ∀ c ∈ d.element.childElements, ModeShape d.fastFollow c := by
  obtain ⟨e, -, hread⟩ := delivery?_eq_some_iff.1 h
  obtain ⟨rfl, hshape⟩ := Delivery.ofElement?_ok_iff.1 hread
  exact hshape

theorem isStructural_of_delivery? {error : BundleError} (h : m.delivery? = .error error) :
    IsStructural error := by
  rw [delivery?, Manifest.delivery?_eq] at h
  split at h
  · exact isStructural_of_ofElement? (Step.error_of_map h)
  · cases h

/-! ## Installation -/

theorem install?_of_none (hbase : m.isBase = false) (h : m.delivery? = .ok none) :
    m.install? = m.manifest.onDemand? >>= fun b =>
      .ok (if b = some true then .never else .always) := by
  simp only [install?, hbase]
  exact Step.bind_ok _ h

theorem install?_of_some (hbase : m.isBase = false) (h : m.delivery? = .ok (some d)) :
    m.install? = if d.hasMode then .ok (installOf d)
      else .error (.invalidBundle (.noDeliveryMode m.name)) := by
  simp only [install?, hbase]
  exact Step.bind_ok _ h

theorem installOf_eq_conditional_iff : installOf d = .conditional ↔ d.hasConditions := by
  unfold installOf
  grind

/-- The legacy attribute decides where there is no delivery element. -/
theorem never_iff_of_install? (hbase : m.isBase = false) (h : m.delivery? = .ok none)
    {k : InitialInstall} (hk : m.install? = .ok k) :
    k = .never ↔ m.manifest.onDemand? = .ok (some true) := by
  rw [install?_of_none hbase h] at hk
  obtain ⟨b, hb, hk⟩ := Step.ok_of_bind hk
  cases hk
  rw [hb]
  grind

/-- The delivery of a module that comes with the app, or does not, is accepted. -/
theorem delivery?_of_install? (hbase : m.isBase = false) {k : InitialInstall}
    (hk : m.install? = .ok k) : ∃ found, m.delivery? = .ok found := by
  simp only [install?, hbase] at hk
  obtain ⟨found, hfound, -⟩ := Step.ok_of_bind hk
  exact ⟨found, hfound⟩

/-- A module comes with the app under conditions when it has a conditions element. -/
theorem conditional_iff_of_install? (hbase : m.isBase = false) {k : InitialInstall}
    (hk : m.install? = .ok k) :
    k = .conditional ↔ ∃ e, m.manifest.conditionsElement? = some e := by
  obtain ⟨found, hdelivery⟩ := delivery?_of_install? hbase hk
  cases found with
  | none =>
    rw [install?_of_none hbase hdelivery] at hk
    obtain ⟨b, -, hk⟩ := Step.ok_of_bind hk
    cases hk
    rw [Manifest.conditionsElement?_of_none hdelivery]
    grind
  | some d =>
    rw [install?_of_some hbase hdelivery] at hk
    split at hk
    · cases hk
      rw [Manifest.conditionsElement?_of_some hdelivery, installOf_eq_conditional_iff,
        hasConditions, Option.isSome_iff_exists]
    · cases hk

theorem onDemand?_ne_noDeliveryMode (m : Manifest) (name : String) :
    m.onDemand? ≠ .error (.invalidBundle (.noDeliveryMode name)) := by
  intro h
  simp only [Manifest.onDemand?, Manifest.readOptional] at h
  split at h
  · have hread := Step.error_of_map h
    simp only [Attribute.boolean?] at hread
    split at hread <;> cases hread
  · cases h

/-- That no mode is declared is said of an empty delivery element, and of no other. -/
theorem install?_eq_noDeliveryMode_iff (hbase : m.isBase = false) {name : String} :
    m.install? = .error (.invalidBundle (.noDeliveryMode name)) ↔
      name = m.name ∧ ∃ d, m.delivery? = .ok (some d) ∧ d.element.childElements = [] := by
  cases hdelivery : m.delivery? with
  | error error =>
    have herror : m.install? = .error error := by
      simp only [install?, hbase, hdelivery]
      rfl
    have hstructural := isStructural_of_delivery? hdelivery name
    simp [herror, hstructural]
  | ok found =>
    cases found with
    | none =>
      rw [install?_of_none hbase hdelivery]
      constructor
      · intro h
        rcases Step.error_of_bind h with h | ⟨b, -, h⟩
        · exact absurd h (onDemand?_ne_noDeliveryMode m.manifest name)
        · cases h
      · rintro ⟨-, d, hd, -⟩
        cases hd
    | some d =>
      rw [install?_of_some hbase hdelivery]
      have hmode := hasMode_iff (modeShape_of_delivery? hdelivery)
      constructor
      · intro h
        split at h
        · cases h
        · rename_i hbare
          cases h
          exact ⟨rfl, d, rfl, not_not.1 fun hne => hbare (hmode.2 hne)⟩
      · rintro ⟨rfl, d, ⟨⟩, hnil⟩
        exact if_neg fun hhas => hmode.1 hhas hnil

example : install? { name := "bare", context := {}, manifest := {
    root := { name := "manifest", children := [distribution "module" [distribution "delivery" []]] }
    name_eq := rfl
    namespace_eq := rfl } } = .error (.invalidBundle (.noDeliveryMode "bare")) := rfl

/-! ## Conditions -/

/-- A module without a conditions element has no conditions. -/
theorem targeting?_of_none {found : Option Delivery} (h : m.delivery? = .ok found)
    (hnone : m.manifest.conditionsElement? = none) : m.targeting? = .ok {} := by
  rw [targeting?, Step.bind_ok _ h]
  cases found with
  | none => rfl
  | some d =>
    rw [Manifest.conditionsElement?_of_some h] at hnone
    simp only [hasConditions, hnone]
    rfl

/-- The conditions of a module are those that its conditions element states. -/
theorem states_of_targeting? {e : Element} {t : ModuleTargeting}
    (he : m.manifest.conditionsElement? = some e) (h : m.targeting? = .ok t) :
    States e t ∧ ∀ v, t.minSdk = some v ↔ m.manifest.GivesLowest e v := by
  rcases ok_of_targeting? h with ⟨hnone, -⟩ | ⟨e', stated, he', hstated, hlow⟩
  · rw [hnone] at he
    cases he
  cases he.symm.trans he'
  have hstates := ModuleConditions.states_toTargeting hstated
  have hempty := minSdk_eq_none_iff hstated
  rcases hlow with ⟨hsome, rfl⟩ | ⟨low, hnone, hmanifest, rfl⟩
  · refine ⟨hstates, fun v => (ModuleConditions.minSdk_iff hstated v).trans (or_iff_left ?_).symm⟩
    rintro ⟨hfree, -⟩
    rw [hempty.2 hfree] at hsome
    cases hsome
  · refine ⟨⟨hstates.maxSdk, hstates.features, hstates.countries, hstates.groups⟩, fun v => ?_⟩
    have hfree := hempty.1 hnone
    simp [Manifest.GivesLowest, hfree, hmanifest]

/-- Whether a module comes with the app and the conditions under which it does agree.
It has conditions where it comes with the app under conditions, and only there; they
are those of its conditions element, and the lowest SDK version of the manifest for a
missing one.  Without a delivery element the legacy attribute decides, and an empty
delivery element is the one that declares no mode. -/
theorem install?_targeting? (hbase : m.isBase = false) :
    (∀ k, m.install? = .ok k →
      (k ≠ .conditional → m.targeting? = .ok {}) ∧
      (k = .conditional → ∃ e, m.manifest.conditionsElement? = some e ∧
        ∀ t, m.targeting? = .ok t →
          States e t ∧ ∀ v, t.minSdk = some v ↔ m.manifest.GivesLowest e v) ∧
      (m.manifest.deliveryElement? = none →
        (k = .never ↔ m.manifest.onDemand? = .ok (some true)))) ∧
    ∀ name, m.install? = .error (.invalidBundle (.noDeliveryMode name)) ↔
      name = m.name ∧ ∃ e d, m.manifest.deliveryElement? = some e ∧
        Delivery.ofElement? m.context.fastFollowEnabled e = .ok d ∧ e.childElements = [] := by
  refine ⟨fun k hk => ⟨fun hother => ?_, fun hconditional => ?_, fun hnone => ?_⟩, fun name => ?_⟩
  · obtain ⟨found, hdelivery⟩ := delivery?_of_install? hbase hk
    refine targeting?_of_none hdelivery (Option.eq_none_iff_forall_ne_some.2 fun e he => ?_)
    exact hother ((conditional_iff_of_install? hbase hk).2 ⟨e, he⟩)
  · obtain ⟨e, he⟩ := (conditional_iff_of_install? hbase hk).1 hconditional
    exact ⟨e, he, fun t ht => states_of_targeting? he ht⟩
  · exact never_iff_of_install? hbase (delivery?_eq_none_iff.2 hnone) hk
  · simp only [install?_eq_noDeliveryMode_iff hbase, delivery?_eq_some_iff]
    refine and_congr_right fun _ => ⟨?_, ?_⟩
    · rintro ⟨d, ⟨e, he, hread⟩, hnil⟩
      obtain ⟨rfl, -⟩ := Delivery.ofElement?_ok_iff.1 hread
      exact ⟨e, _, he, hread, hnil⟩
    · rintro ⟨e, d, he, hread, hnil⟩
      obtain ⟨rfl, -⟩ := Delivery.ofElement?_ok_iff.1 hread
      exact ⟨_, ⟨e, he, hread⟩, hnil⟩

theorem install?_targeting?_cameraModule :
    cameraModule.isBase = false ∧ cameraModule.install? = .ok .conditional ∧
      ∃ e t, cameraModule.manifest.conditionsElement? = some e ∧
        cameraModule.targeting? = .ok t ∧ States e t ∧ t.minSdk = some 21 ∧
        cameraModule.manifest.GivesLowest e 21 := by
  have hbase : cameraModule.isBase = false := by decide
  have hinstall : cameraModule.install? = .ok .conditional := rfl
  obtain ⟨t, ht, hlow⟩ : ∃ t, cameraModule.targeting? = .ok t ∧ t.minSdk = some 21 := ⟨_, rfl, rfl⟩
  obtain ⟨e, he, hstates⟩ := ((install?_targeting? hbase).1 _ hinstall).2.1 rfl
  obtain ⟨hstated, hgives⟩ := hstates t ht
  exact ⟨hbase, hinstall, e, t, he, ht, hstated, hlow, (hgives 21).1 hlow⟩

end Module

end AppBundle
