import AppBundle.Module.Install
import AppBundle.Proofs.Delivery.Stated
import AppBundle.Proofs.Targeting.Satisfied

/-!
# Conditions of a module

The conditions under which a module comes with the app stand in one element of
its manifest (`Manifest.conditionsElement?`).  `Manifest.HoldsOn` says when they
hold on a device, as the manifest states them: each child element of that element
states a condition that holds, and without a lowest SDK version among them that
of the manifest holds.  This is what the conditions of the module decide
(`Module.satisfies?_targeting?`).

A conditions element whose own bounds are upside down is refused.  A lowest SDK
version that comes from the manifest is not held against the highest one
(`Module.sdkRange_of_targeting?`), so the bounds of a module may be upside down
after all (`Module.targeting?_futureModule`).
-/

namespace AppBundle

open Xml Delivery

variable {t : ModuleTargeting} {d : DeviceSpec} {e : Element}

/-! ## The conditions element -/

namespace Manifest

/-- The first conditions element of the first install-time element. -/
def conditionsElement? (m : Manifest) : Option Element :=
  m.module?.bind fun module =>
    (module.childNamed? distributionUri "delivery").bind fun delivery =>
      (delivery.childNamed? distributionUri "install-time").bind
        (·.childNamed? distributionUri "conditions")

variable {m : Manifest} {fastFollow : Bool}

theorem conditionsElement?_of_none (h : m.delivery? fastFollow = .ok none) :
    m.conditionsElement? = none := by
  simp only [delivery?, ofManifest?] at h
  split at h
  · cases hread : Delivery.ofElement? fastFollow _ <;> rw [hread] at h <;> cases h
  · rename_i hnone
    cases hmodule : m.module? with
    | none => simp [conditionsElement?, hmodule]
    | some module =>
      have hdelivery : module.childNamed? distributionUri "delivery" = none := by
        rwa [show m.root.childNamed? distributionUri "module" = some module from hmodule] at hnone
      simp [conditionsElement?, hmodule, hdelivery]

theorem conditionsElement?_of_some {delivery : Delivery}
    (h : m.delivery? fastFollow = .ok (some delivery)) :
    m.conditionsElement? = delivery.installTimeChild? "conditions" := by
  simp only [delivery?, ofManifest?] at h
  split at h
  · rename_i element hsome
    obtain ⟨found, hread, hfound⟩ := Step.ok_of_map h
    cases hfound
    rw [(Delivery.ofElement?_ok_iff.1 hread).1]
    obtain ⟨module, hmodule, hdelivery⟩ := Option.bind_eq_some_iff.1 hsome
    simp only [conditionsElement?, show m.module? = some module from hmodule, Option.bind_some,
      hdelivery]
    rfl
  · cases h

/-- The conditions that the manifest states hold on a device. -/
structure HoldsOn (m : Manifest) (e : Element) (d : DeviceSpec) : Prop where
  /-- Each child of the conditions element states one that holds. -/
  children : ∀ child ∈ e.childElements, ∃ c, Condition.StatedBy child c ∧ c.HoldsOn d
  /-- Where none of them is a lowest SDK version, that of the manifest holds. -/
  manifest : e.childrenNamed distributionUri "min-sdk" = [] →
    ∀ v, m.minSdk? = .ok (some v) → v ≤ d.sdkVersion

end Manifest

namespace Module

variable {m : Module}

/-! ## Where the conditions of a module come from -/

/-- A module without a conditions element has no conditions.  Otherwise it has
those of the element, and the lowest SDK version of the manifest for a missing one. -/
theorem ok_of_targeting? (h : m.targeting? = .ok t) :
    (m.manifest.conditionsElement? = none ∧ t = {}) ∨
      ∃ e stated, m.manifest.conditionsElement? = some e ∧
        ModuleConditions.ofElement? e = .ok stated ∧
        ((stated.minSdk.isSome ∧ t = stated.toTargeting) ∨
          ∃ low, stated.minSdk = none ∧ m.manifest.minSdk? = .ok low ∧
            t = { stated.toTargeting with minSdk := low }) := by
  obtain ⟨delivery, hdelivery, h⟩ := Step.ok_of_bind h
  cases delivery with
  | none =>
    cases h
    exact .inl ⟨Manifest.conditionsElement?_of_none hdelivery, rfl⟩
  | some delivery =>
    rw [Manifest.conditionsElement?_of_some hdelivery]
    cases hconditions : delivery.installTimeChild? "conditions" with
    | none =>
      have hbare : delivery.hasConditions = false := by simp [Delivery.hasConditions, hconditions]
      simp only [hbare] at h
      cases h
      exact .inl ⟨rfl, rfl⟩
    | some e =>
      have hbound : delivery.hasConditions = true := by simp [Delivery.hasConditions, hconditions]
      simp only [hbound] at h
      obtain ⟨_, hasked, h⟩ := Step.ok_of_bind h
      obtain ⟨stated, hstated, rfl⟩ := Step.ok_of_map hasked
      simp only [Delivery.conditions?, hconditions] at hstated
      refine .inr ⟨e, stated, rfl, hstated, ?_⟩
      split at h
      · rename_i hlow
        cases h
        exact .inl ⟨Option.isSome_of_eq_some hlow, rfl⟩
      · rename_i hlow
        obtain ⟨low, hmanifest, h⟩ := Step.ok_of_bind h
        cases h
        exact .inr ⟨low, hlow, hmanifest, rfl⟩

theorem minSdk_eq_none_iff {stated : ModuleConditions}
    (h : ModuleConditions.ofElement? e = .ok stated) :
    stated.minSdk = none ↔ e.childrenNamed distributionUri "min-sdk" = [] := by
  have hlength := ModuleConditions.length_childrenNamed_of_ofElement? (k := .minSdk) h nofun
  rw [← List.length_eq_zero_iff, show "min-sdk" = Condition.Kind.minSdk.element from rfl, hlength]
  cases hlow : stated.minSdk <;> simp [ModuleConditions.held, hlow]

/-- The stated conditions are those that the children state, when they hold. -/
theorem forall_includes_iff {stated : ModuleConditions}
    (h : ModuleConditions.ofElement? e = .ok stated) :
    (∀ c, Includes stated.toTargeting c → c.HoldsOn d) ↔
      ∀ child ∈ e.childElements, ∃ c, Condition.StatedBy child c ∧ c.HoldsOn d := by
  simp only [ModuleConditions.includes_toTargeting]
  constructor
  · intro hall child hchild
    obtain ⟨c, hstated, hc⟩ := ModuleConditions.includes_of_mem h hchild
    exact ⟨c, hstated, hall c hc⟩
  · intro hall c hc
    obtain ⟨child, hchild, hstated⟩ := ModuleConditions.stated_of_includes h hc
    obtain ⟨c', hstated', hholds⟩ := hall child hchild
    exact hstated'.holdsOn_congr hstated hholds

/-- A lowest SDK version that is filled in is one more condition. -/
theorem forall_includes_minSdk_iff {low : Option Int32} (h : t.minSdk = none) :
    (∀ c, Includes { t with minSdk := low } c → c.HoldsOn d) ↔
      (∀ c, Includes t c → c.HoldsOn d) ∧ ∀ v, low = some v → v ≤ d.sdkVersion := by
  constructor
  · intro hall
    refine ⟨fun c hc => ?_, fun v hv => hall (.minSdk v) hv⟩
    cases c with
    | minSdk v =>
      rw [Includes, h] at hc
      cases hc
    | _ => exact hall _ hc
  · rintro ⟨hall, hlow⟩ c hc
    cases c with
    | minSdk v => exact hlow v hc
    | _ => exact hall _ hc

/-! ## What the conditions decide -/

/-- The conditions of a module hold when the manifest says so. -/
theorem forall_includes_iff_holdsOn (he : m.manifest.conditionsElement? = some e)
    (h : m.targeting? = .ok t) :
    (∀ c, Includes t c → c.HoldsOn d) ↔ m.manifest.HoldsOn e d := by
  rcases ok_of_targeting? h with ⟨hnone, -⟩ | ⟨e', stated, he', hstated, hlow⟩
  · rw [hnone] at he
    cases he
  cases he.symm.trans he'
  rcases hlow with ⟨hsome, rfl⟩ | ⟨low, hnone, hmanifest, rfl⟩
  · -- There is a child for the lowest version, so the manifest has no say.
    rw [forall_includes_iff hstated]
    refine ⟨fun hall => ⟨hall, fun hfree => ?_⟩, fun hholds => hholds.children⟩
    rw [(minSdk_eq_none_iff hstated).2 hfree] at hsome
    cases hsome
  · rw [forall_includes_minSdk_iff hnone, forall_includes_iff hstated]
    constructor
    · rintro ⟨hall, hlow⟩
      refine ⟨hall, fun _ v hv => hlow v ?_⟩
      rw [hmanifest] at hv
      exact Except.ok.inj hv
    · intro hholds
      refine ⟨hholds.children, fun v hv => ?_⟩
      exact hholds.manifest ((minSdk_eq_none_iff hstated).1 hnone) v (hv ▸ hmanifest)

/-- The conditions of a module hold on a device as its manifest states them, and
countries have no say.  This is decided without an error. -/
theorem satisfies?_targeting? (he : m.manifest.conditionsElement? = some e)
    (h : m.targeting? = .ok t) (hd : 0 < d.sdkVersion) :
    ∃ holds, d.satisfies? t = .ok holds ∧ (holds = true ↔ m.manifest.HoldsOn e d) ∧
      ∀ countries, d.satisfies? { t with countries } = .ok holds := by
  obtain ⟨holds, hdecided⟩ : ∃ holds, d.satisfies? t = .ok holds := ⟨_, d.satisfies?_eq t⟩
  refine ⟨holds, hdecided, ?_, ?_⟩
  · rw [← forall_includes_iff_holdsOn he h, ← DeviceSpec.satisfied_iff hd, hdecided,
      Except.ok.injEq]
  · intro countries
    rw [← hdecided, d.satisfies?_eq, d.satisfies?_eq]
    rfl

/-- The node of a distribution element with one attribute. -/
def distributionWith (name key : String) (item : Item) : Node :=
  .element
    { namespaceUri := distributionUri, name
      attributes := [{ namespaceUri := distributionUri, name := key, item := some item }] } []

/-- A manifest of an app from an SDK version on, with conditions on its module. -/
def conditionalManifest (minSdk : Int32) (conditions : List Node) : Manifest where
  root :=
    { name := "manifest"
      children := [
        .element
          { name := "uses-sdk"
            attributes := [
              (Attribute.android "minSdkVersion" Platform.minSdkVersionId).setDecimal minSdk] } [],
        distribution "module" [
          distribution "delivery" [
            distribution "install-time" [distribution "conditions" conditions]]]] }
  name_eq := rfl
  namespace_eq := rfl

/-- A module for phones with a camera, up to an SDK version, in one of two groups. -/
def cameraModule : Module where
  name := "camera"
  context := {}
  manifest := conditionalManifest 21 [
    distributionWith "max-sdk" "value" (.hex 0x1e),
    .element
      { namespaceUri := distributionUri, name := "device-feature"
        attributes := [
          { namespaceUri := distributionUri, name := "name", raw := "lens" },
          { namespaceUri := distributionUri, name := "version", item := some (.hex 2) }] } [],
    distribution "user-countries" [],
    distribution "device-groups" [
      distributionWith "device-group" "name" (.string "tall"),
      distributionWith "device-group" "name" (.string "small")]]

/-- A phone that lists a feature twice; its second version is high enough. -/
def twiceListedPhone : DeviceSpec where
  features := ["lens=1", "lens=2", "nfc"]
  sdkVersion := 30
  groups := ["small"]

theorem satisfies?_targeting?_cameraModule :
    ∃ e t, cameraModule.manifest.conditionsElement? = some e ∧
      cameraModule.targeting? = .ok t ∧ twiceListedPhone.satisfies? t = .ok true ∧
      cameraModule.manifest.HoldsOn e twiceListedPhone := by
  obtain ⟨t, ht, hsatisfied⟩ := Step.ok_of_bind
    (x := cameraModule.targeting?) (f := twiceListedPhone.satisfies?) (b := true)
    rfl
  obtain ⟨e, he⟩ : ∃ e, cameraModule.manifest.conditionsElement? = some e := ⟨_, rfl⟩
  obtain ⟨holds, hdecided, hiff, -⟩ :=
    satisfies?_targeting? (d := twiceListedPhone) he ht (by decide)
  rw [hsatisfied] at hdecided
  cases hdecided
  exact ⟨e, t, he, ht, hsatisfied, hiff.1 rfl⟩

/-! ## Bounds -/

/-- Bounds of a module are bounds that its conditions state, in the right order,
or the lowest SDK version is that of the manifest. -/
theorem sdkRange_of_targeting? {low high : Int32} (h : m.targeting? = .ok t)
    (hlow : t.minSdk = some low) (hhigh : t.maxSdk = some high) :
    ∃ e, m.manifest.conditionsElement? = some e ∧
      (∃ child ∈ e.childElements, Condition.StatedBy child (.maxSdk high)) ∧
      ((low ≤ high ∧ ∃ child ∈ e.childElements, Condition.StatedBy child (.minSdk low)) ∨
        (e.childrenNamed distributionUri "min-sdk" = [] ∧
          m.manifest.minSdk? = .ok (some low))) := by
  rcases ok_of_targeting? h with ⟨-, rfl⟩ | ⟨e, stated, he, hstated, hfrom⟩
  · cases hlow
  · refine ⟨e, he, ?_⟩
    rcases hfrom with ⟨-, rfl⟩ | ⟨given, hnone, hmanifest, rfl⟩
    · exact ⟨ModuleConditions.stated_of_includes hstated hhigh,
        .inl ⟨ModuleConditions.le_of_ofElement? hstated hlow hhigh,
          ModuleConditions.stated_of_includes hstated hlow⟩⟩
    · cases hlow
      exact ⟨ModuleConditions.stated_of_includes (c := .maxSdk high) hstated hhigh,
        .inr ⟨(minSdk_eq_none_iff hstated).1 hnone, hmanifest⟩⟩

/-- A module with bounds of its own. -/
def rangedModule : Module where
  name := "ranged"
  context := {}
  manifest := conditionalManifest 31 [
    distributionWith "max-sdk" "value" (.decimal 30),
    distributionWith "min-sdk" "value" (.hex 0x15)]

theorem sdkRange_of_targeting?_rangedModule :
    rangedModule.targeting? = .ok { minSdk := some 21, maxSdk := some 30 } ∧
      ∃ e, rangedModule.manifest.conditionsElement? = some e ∧
        ∃ child ∈ e.childElements, Condition.StatedBy child (.maxSdk 30) := by
  have h : rangedModule.targeting? = .ok { minSdk := some 21, maxSdk := some 30 } := rfl
  obtain ⟨e, he, hstated, -⟩ := sdkRange_of_targeting? h rfl rfl
  exact ⟨h, e, he, hstated⟩

/-- A module for SDK versions up to 30 of an app that needs at least 31. -/
def futureModule : Module where
  name := "future"
  context := {}
  manifest := conditionalManifest 31 [distributionWith "max-sdk" "value" (.decimal 30)]

/-- Its bounds are upside down. -/
theorem targeting?_futureModule :
    futureModule.targeting? = .ok { minSdk := some 31, maxSdk := some 30 } ∧
      ¬ (31 : Int32) ≤ 30 :=
  ⟨rfl, by decide⟩

end Module

end AppBundle
