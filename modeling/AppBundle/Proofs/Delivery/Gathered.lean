import AppBundle.Proofs.Delivery.Stated
import Mathlib.Data.List.Forall2

/-!
# A conditions element as a whole

What the children of a conditions element state one by one (`Condition.StatedBy`)
makes up the conditions that are gathered from it.  `States` says so place by place:
the highest SDK version and the countries are those that a child states, the features
are those of the feature elements in their order, and the groups are those that some
element names.  The lowest SDK version stands apart (`ModuleConditions.minSdk_iff`),
since a manifest may give it elsewhere.

Conditions that were read off an element are the ones that it states
(`ModuleConditions.states_toTargeting`).
-/

namespace AppBundle

open Xml

/-- When a row of steps succeeds, each result comes from the step at its place. -/
theorem Step.forall₂_of_mapM {ε α β : Type} {f : α → Except ε β} {as : List α} {bs : List β}
    (h : as.mapM f = .ok bs) : List.Forall₂ (fun a b => f a = .ok b) as bs := by
  induction as generalizing bs with
  | nil =>
    cases h
    exact .nil
  | cons a as ih =>
    obtain ⟨b, bs', hb, hbs', rfl⟩ := mapM_cons_ok h
    exact .cons hb (ih hbs')

/-! ## Truth values -/

namespace Xml.Attribute

variable {a : Attribute}

/-- An attribute holds a truth value, compiled or as text. -/
inductive HoldsBoolean (a : Attribute) (b : Bool) : Prop where
  | value (item_eq : a.item = some (.boolean b))
  | text (text_eq : a.text? = .ok (Item.booleanText b))

theorem text?_of_boolean {b : Bool} (h : a.item = some (.boolean b)) (text : String) :
    a.text? ≠ .ok text := by
  simp [text?, h]

theorem HoldsBoolean.unique {b c : Bool} (hb : a.HoldsBoolean b) (hc : a.HoldsBoolean c) :
    b = c := by
  cases hb with
  | value hb =>
    cases hc with
    | value hc => simpa [hb] using hc
    | text hc => exact absurd hc (text?_of_boolean hb _)
  | text hb =>
    cases hc with
    | value hc => exact absurd hb (text?_of_boolean hc _)
    | text hc =>
      rw [hb] at hc
      revert hc
      cases b <;> cases c <;> decide

end Xml.Attribute

namespace Delivery

variable {e child : Element} {m m' : ModuleConditions} {c : Condition} {k : Condition.Kind}

theorem holdsBoolean_of_boolean? {a : Attribute} {b : Bool} (h : boolean? e a = .ok b) :
    a.HoldsBoolean b := by
  simp only [boolean?] at h
  split at h
  · rename_i hvalue
    cases h
    simp only [Attribute.boolean?] at hvalue
    split at hvalue
    · cases hvalue
      exact .value ‹_›
    · cases hvalue
  · obtain ⟨text, htext, h⟩ := Step.ok_of_bind h
    split at h
    · cases h
      exact .text (by simp_all [Item.booleanText])
    · split at h
      · cases h
        exact .text (by simp_all [Item.booleanText])
      · cases h

/-! ## Countries -/

/-- An element states countries: their codes in capitals, and whether they are left out. -/
structure StatesCountries (e : Element) (c : UserCountries) : Prop where
  codes : List.Forall₂ (fun country code => country.isNamed distributionUri "country" ∧
    ∃ text, GivesText country "code" text ∧ code = Text.upper text) e.childElements c.codes
  exclude : c.exclude = true ↔
    ∃ a, e.attribute? distributionUri "exclude" = some a ∧ a.HoldsBoolean true

theorem StatesCountries.unique {c c' : UserCountries} (h : StatesCountries e c)
    (h' : StatesCountries e c') : c = c' := by
  have hcodes : c.codes = c'.codes := by
    refine List.right_unique_forall₂' ?_ h.codes h'.codes
    rintro country _ _ ⟨-, text, htext, rfl⟩ ⟨-, text', htext', rfl⟩
    rw [htext.unique htext']
  have hexclude : c.exclude = c'.exclude := by
    rw [Bool.eq_iff_iff, h.exclude, h'.exclude]
  cases c
  cases c'
  cases hcodes
  cases hexclude
  rfl

theorem states_of_country? {code : String} (h : Condition.country? e = .ok code) :
    e.isNamed distributionUri "country" ∧
      ∃ text, GivesText e "code" text ∧ code = Text.upper text := by
  obtain ⟨⟨⟩, hkind, h⟩ := Step.ok_of_bind h
  obtain ⟨a, ha, h⟩ := Step.ok_of_bind h
  obtain ⟨text, htext, h⟩ := Step.ok_of_bind h
  cases h
  exact ⟨isNamed_of_classify hkind, text, ⟨a, attribute?_of_required? ha, htext⟩, rfl⟩

theorem statesCountries_of_countries? {c : UserCountries} (h : Condition.countries? e = .ok c) :
    StatesCountries e c := by
  obtain ⟨found, hfound, h⟩ := Step.ok_of_bind h
  have hattribute := attribute?_of_optional? hfound
  cases found with
  | none =>
    obtain ⟨_, ⟨⟩, h⟩ := Step.ok_of_bind h
    obtain ⟨codes, hcodes, h⟩ := Step.ok_of_bind h
    cases h
    exact ⟨(Step.forall₂_of_mapM hcodes).imp fun _ _ => states_of_country?, by simp [hattribute]⟩
  | some a =>
    obtain ⟨exclude, hexclude, h⟩ := Step.ok_of_bind h
    obtain ⟨codes, hcodes, h⟩ := Step.ok_of_bind h
    cases h
    refine ⟨(Step.forall₂_of_mapM hcodes).imp fun _ _ => states_of_country?, ?_⟩
    have hholds := holdsBoolean_of_boolean? hexclude
    constructor
    · rintro rfl
      exact ⟨a, hattribute, hholds⟩
    · rintro ⟨a', ha', htrue⟩
      cases hattribute.symm.trans ha'
      exact hholds.unique htrue

/-! ## Features -/

/-- An element states a feature: its name, and its lowest version if it gives one. -/
structure StatesFeature (e : Element) (f : DeviceFeature) : Prop where
  name : GivesText e "name" f.name
  version : ∀ v, f.version = some v ↔ GivesInteger e "version" v

namespace Condition

theorem givesInteger_of_sdk {v : Int32} (h : ofElement? child = .ok c)
    (hc : c = .minSdk v ∨ c = .maxSdk v) : GivesInteger child "value" v := by
  rcases hc with rfl | rfl <;> cases statedBy_of_ofElement? h <;> assumption

theorem statesCountries_of_ofElement? {countries : UserCountries}
    (h : ofElement? child = .ok (.countries countries)) : StatesCountries child countries := by
  obtain ⟨k, -, h⟩ := Step.ok_of_bind h
  cases k with
  | countries =>
    obtain ⟨read, hread, h⟩ := Step.ok_of_bind h
    cases h
    exact statesCountries_of_countries? hread
  | _ =>
    obtain ⟨_, -, h⟩ := Step.ok_of_bind h
    cases h

theorem statesFeature_of_ofElement? {f : DeviceFeature}
    (h : ofElement? child = .ok (.feature f)) : StatesFeature child f := by
  cases statedBy_of_ofElement? h with
  | feature _ name version => exact ⟨name, version⟩

end Condition

namespace ModuleConditions

/-! ## Conditions of one kind -/

/-- The conditions that were gathered are those of the elements of their kind. -/
theorem includes_iff_named (h : ofElement? e = .ok m) :
    m.Includes c ↔ ∃ child ∈ e.childrenNamed distributionUri c.kind.element,
      Condition.ofElement? child = .ok c := by
  rw [includes_iff h]
  constructor
  · rintro ⟨child, hchild, hread⟩
    exact ⟨child, List.mem_filter.2 ⟨hchild, Condition.isNamed_kind_of_ofElement? hread⟩, hread⟩
  · rintro ⟨child, hchild, hread⟩
    exact ⟨child, (List.mem_filter.1 hchild).1, hread⟩

/-- Every element of a kind is read as a condition of the kind, which is gathered. -/
theorem includes_of_named (h : ofElement? e = .ok m)
    (hchild : child ∈ e.childrenNamed distributionUri k.element) :
    ∃ c, c.kind = k ∧ Condition.ofElement? child = .ok c ∧ m.Includes c := by
  obtain ⟨hmem, hnamed⟩ := List.mem_filter.1 hchild
  obtain ⟨c, hread⟩ := (includes_foldlM (ofElement?_ok_iff.1 h).1).2 child hmem
  refine ⟨c, of_decide_eq_true ?_, hread, (includes_iff h).2 ⟨child, hmem, hread⟩⟩
  exact (Condition.isNamed_of_ofElement? hread k).symm.trans hnamed

/-- Where an element of a kind states just one thing, that thing is gathered exactly when an
element of the kind states it. -/
theorem includes_iff_states {α : Type} {condition : α → Condition} {Stated : Element → α → Prop}
    (h : ofElement? e = .ok m) (hkind : ∀ c, c.kind = k ↔ ∃ a, c = condition a)
    (hstated : ∀ {child a}, Condition.ofElement? child = .ok (condition a) → Stated child a)
    (hunique : ∀ {child a b}, Stated child a → Stated child b → a = b) (a : α) :
    m.Includes (condition a) ↔
      ∃ child ∈ e.childrenNamed distributionUri k.element, Stated child a := by
  constructor
  · intro hincludes
    obtain ⟨child, hchild, hread⟩ := (includes_iff_named h).1 hincludes
    rw [(hkind _).2 ⟨a, rfl⟩] at hchild
    exact ⟨child, hchild, hstated hread⟩
  · rintro ⟨child, hchild, ha⟩
    obtain ⟨c, hc, hread, hincludes⟩ := includes_of_named h hchild
    obtain ⟨b, rfl⟩ := (hkind c).1 hc
    rwa [hunique ha (hstated hread)]

/-- The lowest SDK version is the one that an element gives. -/
theorem minSdk_iff (h : ofElement? e = .ok m) (v : Int32) :
    m.minSdk = some v ↔
      ∃ child ∈ e.childrenNamed distributionUri "min-sdk", GivesInteger child "value" v := by
  have hkind : ∀ c : Condition, c.kind = .minSdk ↔ ∃ v, c = .minSdk v := by
    intro c
    cases c <;> simp [Condition.kind]
  exact includes_iff_states h hkind (fun hread => Condition.givesInteger_of_sdk hread (.inl rfl))
    GivesInteger.unique v

theorem maxSdk_iff (h : ofElement? e = .ok m) (v : Int32) :
    m.maxSdk = some v ↔
      ∃ child ∈ e.childrenNamed distributionUri "max-sdk", GivesInteger child "value" v := by
  have hkind : ∀ c : Condition, c.kind = .maxSdk ↔ ∃ v, c = .maxSdk v := by
    intro c
    cases c <;> simp [Condition.kind]
  exact includes_iff_states h hkind (fun hread => Condition.givesInteger_of_sdk hread (.inr rfl))
    GivesInteger.unique v

theorem countries_iff (h : ofElement? e = .ok m) (countries : UserCountries) :
    m.countries = some countries ↔
      ∃ child ∈ e.childrenNamed distributionUri "user-countries",
        StatesCountries child countries := by
  have hkind : ∀ c : Condition, c.kind = .countries ↔ ∃ countries, c = .countries countries := by
    intro c
    cases c <;> simp [Condition.kind]
  exact includes_iff_states h hkind Condition.statesCountries_of_ofElement? StatesCountries.unique
    countries

/-- Each feature element puts its feature behind those before it, and no other element
puts one there. -/
theorem features_of_foldlM {es : List Element} (h : es.foldlM addElement m = .ok m') :
    ∃ fs, m'.features = m.features ++ fs ∧ List.Forall₂ StatesFeature
      (es.filter (·.isNamed distributionUri "device-feature")) fs := by
  induction es generalizing m with
  | nil =>
    cases h
    exact ⟨[], (List.append_nil _).symm, .nil⟩
  | cons e es ih =>
    rw [List.foldlM_cons] at h
    obtain ⟨m₁, hfirst, h⟩ := Step.ok_of_bind h
    obtain ⟨c, hc, hadd⟩ := Step.ok_of_bind hfirst
    obtain ⟨fs, hfs, hstated⟩ := ih h
    have hnamed := Condition.isNamed_of_ofElement? hc .feature
    have hother : c.kind ≠ .feature →
        (e :: es).filter (·.isNamed distributionUri "device-feature") =
          es.filter (·.isNamed distributionUri "device-feature") := by
      intro hne
      refine List.filter_cons_of_neg fun hfeature => hne (of_decide_eq_true ?_)
      exact hnamed.symm.trans hfeature
    cases c with
    | feature f =>
      cases hadd
      have hfeature : e.isNamed distributionUri "device-feature" := hnamed
      refine ⟨f :: fs, by rw [hfs]; simp, ?_⟩
      simp only [List.filter_cons, hfeature, if_true]
      exact .cons (Condition.statesFeature_of_ofElement? hc) hstated
    | _ =>
      obtain ⟨-, rfl⟩ := map_once_ok_iff.1 hadd
      exact ⟨fs, hfs, hother nofun ▸ hstated⟩

/-- A group is among those that are asked for when some element of groups names it. -/
theorem mem_groups_toTargeting_iff (h : ofElement? e = .ok m) (name : String) :
    name ∈ m.toTargeting.groups ↔
      ∃ child ∈ e.childrenNamed distributionUri "device-groups",
        ∃ group ∈ child.childrenNamed distributionUri "device-group",
          GivesText group "name" name := by
  constructor
  · intro hname
    cases hgroups : m.groups with
    | none =>
      simp only [toTargeting, hgroups] at hname
      cases hname
    | some g =>
      simp only [toTargeting, hgroups] at hname
      obtain ⟨child, hchild, hread⟩ := (includes_iff_named (c := .groups g) h).1 hgroups
      cases Condition.statedBy_of_ofElement? hread with
      | groups _ names_iff => exact ⟨child, hchild, (names_iff name).1 hname⟩
  · rintro ⟨child, hchild, hgroup⟩
    obtain ⟨c, hkind, hread, hincludes⟩ := includes_of_named (k := .groups) h hchild
    cases Condition.statedBy_of_ofElement? hread with
    | groups _ names_iff =>
      have hasked := includes_toTargeting.2 hincludes
      rw [hasked]
      exact (names_iff name).2 hgroup
    | _ => cases hkind

end ModuleConditions

/-! ## All of them -/

/-- Conditions are those that a conditions element states, apart from the lowest SDK
version. -/
structure States (e : Element) (t : ModuleTargeting) : Prop where
  maxSdk : ∀ v, t.maxSdk = some v ↔
    ∃ child ∈ e.childrenNamed distributionUri "max-sdk", GivesInteger child "value" v
  features : List.Forall₂ StatesFeature (e.childrenNamed distributionUri "device-feature")
    t.features
  countries : ∀ c, t.countries = some c ↔
    ∃ child ∈ e.childrenNamed distributionUri "user-countries", StatesCountries child c
  groups : ∀ name, name ∈ t.groups ↔
    ∃ child ∈ e.childrenNamed distributionUri "device-groups",
      ∃ group ∈ child.childrenNamed distributionUri "device-group", GivesText group "name" name

theorem ModuleConditions.states_toTargeting (h : ofElement? e = .ok m) :
    States e m.toTargeting where
  maxSdk := maxSdk_iff h
  features := by
    obtain ⟨fs, hfs, hstated⟩ := features_of_foldlM (ofElement?_ok_iff.1 h).1
    show List.Forall₂ StatesFeature _ m.features
    rw [hfs]
    exact hstated
  countries := countries_iff h
  groups := mem_groups_toTargeting_iff h

end Delivery

end AppBundle
