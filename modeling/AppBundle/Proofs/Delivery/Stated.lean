import AppBundle.Proofs.Delivery.Condition
import AppBundle.Proofs.Ordered

/-!
# What conditions state

A condition is stated by an element: its name tells the kind, and attributes of
the distribution namespace tell the rest.  An integer may be written as a signed
number, as a word, or as text (`Attribute.HoldsInteger`).  `Condition.StatedBy`
says what each kind of element states, without regard to the order in which a
reader looks at its parts.

The conditions of a conditions element are gathered child by child.  What has
been gathered in the end are the conditions that children state, each of them and
no other (`ModuleConditions.includes_iff`).  What is asked of a device keeps them all
(`ModuleConditions.includes_toTargeting`).
-/

namespace AppBundle

open Xml

/-! ## Values of attributes -/

namespace Xml.Attribute

variable {a : Attribute}

/-- An attribute holds an integer. -/
inductive HoldsInteger (a : Attribute) : Int32 → Prop where
  /-- It is a signed number. -/
  | decimal {v : Int32} (item_eq : a.item = some (.decimal v)) : HoldsInteger a v
  /-- It is the signed number with the bits of a word. -/
  | word {w : UInt32} (item_eq : a.item = some (.hex w)) : HoldsInteger a w.toInt32
  /-- It is the signed number that a text writes, blanks around it left out. -/
  | text {text : String} {v : Int32} (text_eq : a.text? = .ok text)
      (writes : Text.readSigned32? (Text.trimBy Text.isBlank text.toList) = some v) :
      HoldsInteger a v

theorem integer?_ok_iff {fault : String → BundleFault} {v : Int32} :
    a.integer? fault = .ok v ↔ a.HoldsInteger v := by
  constructor
  · intro h
    simp only [integer?] at h
    split at h
    · rename_i hitem
      cases h
      exact .decimal hitem
    · rename_i hitem
      cases h
      exact .word hitem
    · obtain ⟨text, htext, h⟩ := Step.ok_of_bind h
      split at h
      · rename_i hwrites
        cases h
        exact .text htext hwrites
      · cases h
  · intro h
    cases h with
    | decimal hitem => simp [integer?, hitem]
    | word hitem => simp [integer?, hitem]
    | text htext hwrites =>
      simp only [integer?]
      split
      · rename_i hitem
        simp [text?, hitem] at htext
      · rename_i hitem
        simp [text?, hitem] at htext
      · rw [Step.bind_ok _ htext, hwrites]

end Xml.Attribute

namespace Delivery

variable {e : Element} {name : String}

/-- An element gives a text in a distribution attribute. -/
def GivesText (e : Element) (name text : String) : Prop :=
  ∃ a, e.attribute? distributionUri name = some a ∧ a.text? = .ok text

/-- An element gives an integer in a distribution attribute. -/
def GivesInteger (e : Element) (name : String) (v : Int32) : Prop :=
  ∃ a, e.attribute? distributionUri name = some a ∧ a.HoldsInteger v

theorem GivesText.unique {s t : String} (hs : GivesText e name s) (ht : GivesText e name t) :
    s = t := by
  obtain ⟨a, ha, hs⟩ := hs
  obtain ⟨b, hb, ht⟩ := ht
  rw [ha] at hb
  cases hb
  rw [hs] at ht
  exact Except.ok.inj ht

theorem GivesInteger.unique {v w : Int32} (hv : GivesInteger e name v)
    (hw : GivesInteger e name w) : v = w := by
  obtain ⟨a, ha, hv⟩ := hv
  obtain ⟨b, hb, hw⟩ := hw
  rw [ha] at hb
  cases hb
  have hread : a.integer? (.notIntegerValue "") = .ok v := Attribute.integer?_ok_iff.2 hv
  rw [Attribute.integer?_ok_iff.2 hw] at hread
  exact (Except.ok.inj hread).symm

theorem attribute?_of_optional? {found : Option Attribute} (h : optional? e name = .ok found) :
    e.attribute? distributionUri name = found := by
  simp only [optional?] at h
  split at h
  · rename_i hsome
    cases h
    exact hsome
  · rename_i hnone
    split at h
    · cases h
    · cases h
      exact hnone

theorem attribute?_of_required? {a : Attribute} (h : required? e name = .ok a) :
    e.attribute? distributionUri name = some a := by
  obtain ⟨found, hfound, h⟩ := Step.ok_of_bind h
  split at h
  · cases h
    exact attribute?_of_optional? hfound
  · cases h

/-! ## One condition -/

namespace Condition

theorem givesInteger_of_version? {v : Int32} (h : version? e = .ok v) :
    GivesInteger e "value" v := by
  obtain ⟨a, ha, h⟩ := Step.ok_of_bind h
  exact ⟨a, attribute?_of_required? ha, Attribute.integer?_ok_iff.1 h⟩

theorem gives_of_feature? {f : DeviceFeature} (h : feature? e = .ok f) :
    GivesText e "name" f.name ∧ ∀ v, f.version = some v ↔ GivesInteger e "version" v := by
  obtain ⟨a, ha, h⟩ := Step.ok_of_bind h
  obtain ⟨text, htext, h⟩ := Step.ok_of_bind h
  have hname : GivesText e "name" text := ⟨a, attribute?_of_required? ha, htext⟩
  obtain ⟨found, hfound, h⟩ := Step.ok_of_bind h
  have hversion := attribute?_of_optional? hfound
  split at h
  · rename_i b
    obtain ⟨v, hv, h⟩ := Step.ok_of_bind h
    cases h
    have hgives : GivesInteger e "version" v := ⟨b, hversion, Attribute.integer?_ok_iff.1 hv⟩
    refine ⟨hname, fun w => ?_⟩
    constructor
    · rintro ⟨⟩
      exact hgives
    · intro hw
      exact congrArg some (hgives.unique hw)
  · cases h
    refine ⟨hname, fun w => ?_⟩
    constructor
    · rintro ⟨⟩
    · rintro ⟨b, hb, -⟩
      rw [hversion] at hb
      cases hb

theorem gives_of_group? {text : String} (h : group? e = .ok text) :
    e.isNamed distributionUri "device-group" ∧ GivesText e "name" text := by
  obtain ⟨⟨⟩, hkind, h⟩ := Step.ok_of_bind h
  obtain ⟨a, ha, h⟩ := Step.ok_of_bind h
  obtain ⟨text, htext, h⟩ := Step.ok_of_bind h
  split at h
  · cases h
    exact ⟨isNamed_of_classify hkind, a, attribute?_of_required? ha, htext⟩
  · cases h

/-- The groups are those that child elements name. -/
theorem mem_of_groups? {groups : DeviceGroups} (h : groups? e = .ok groups) {text : String} :
    text ∈ groups.names ↔
      ∃ g ∈ e.childrenNamed distributionUri "device-group", GivesText g "name" text := by
  obtain ⟨texts, htexts, h⟩ := Step.ok_of_bind h
  dsimp only at h
  split at h
  · cases h
  · cases h
    rw [OrderedSet.mem_ofList, Step.mem_of_mapM htexts]
    constructor
    · rintro ⟨g, hg, htext⟩
      obtain ⟨hnamed, hgives⟩ := gives_of_group? htext
      exact ⟨g, List.mem_filter.2 ⟨hg, hnamed⟩, hgives⟩
    · rintro ⟨g, hg, hgives⟩
      have hchild := (List.mem_filter.1 hg).1
      obtain ⟨text', htext'⟩ := Step.ok_of_mem_mapM htexts hchild
      rw [hgives.unique (gives_of_group? htext').2]
      exact ⟨g, hchild, htext'⟩

/-- A condition as an element states it. -/
inductive StatedBy (e : Element) : Condition → Prop where
  /-- The lowest SDK version. -/
  | minSdk {v : Int32} (named : e.isNamed distributionUri "min-sdk")
      (gives : GivesInteger e "value" v) : StatedBy e (.minSdk v)
  /-- The highest SDK version. -/
  | maxSdk {v : Int32} (named : e.isNamed distributionUri "max-sdk")
      (gives : GivesInteger e "value" v) : StatedBy e (.maxSdk v)
  /-- A feature by its name, and its lowest version if there is one. -/
  | feature {f : DeviceFeature} (named : e.isNamed distributionUri "device-feature")
      (name : GivesText e "name" f.name)
      (version : ∀ v, f.version = some v ↔ GivesInteger e "version" v) : StatedBy e (.feature f)
  /-- Some countries. -/
  | countries {c : UserCountries} (named : e.isNamed distributionUri "user-countries") :
      StatedBy e (.countries c)
  /-- The groups that child elements name. -/
  | groups {groups : DeviceGroups} (named : e.isNamed distributionUri "device-groups")
      (names_iff : ∀ text, text ∈ groups.names ↔
        ∃ g ∈ e.childrenNamed distributionUri "device-group", GivesText g "name" text) :
      StatedBy e (.groups groups)

theorem statedBy_of_ofElement? {c : Condition} (h : ofElement? e = .ok c) : StatedBy e c := by
  have hnamed := isNamed_kind_of_ofElement? h
  obtain ⟨k, -, h⟩ := Step.ok_of_bind h
  cases k with
  | minSdk =>
    obtain ⟨v, hv, h⟩ := Step.ok_of_bind h
    cases h
    exact .minSdk hnamed (givesInteger_of_version? hv)
  | maxSdk =>
    obtain ⟨v, hv, h⟩ := Step.ok_of_bind h
    cases h
    exact .maxSdk hnamed (givesInteger_of_version? hv)
  | feature =>
    obtain ⟨f, hf, h⟩ := Step.ok_of_bind h
    cases h
    obtain ⟨hname, hversion⟩ := gives_of_feature? hf
    exact .feature hnamed hname hversion
  | countries =>
    obtain ⟨c, -, h⟩ := Step.ok_of_bind h
    cases h
    exact .countries hnamed
  | groups =>
    obtain ⟨groups, hgroups, h⟩ := Step.ok_of_bind h
    cases h
    exact .groups hnamed fun text => mem_of_groups? hgroups

theorem StatedBy.isNamed {c : Condition} (h : StatedBy e c) :
    e.isNamed distributionUri c.kind.element := by
  cases h <;> assumption

/-- An element states conditions of one kind. -/
theorem StatedBy.kind_eq {c c' : Condition} (h : StatedBy e c) (h' : StatedBy e c') :
    c.kind = c'.kind := by
  have hname := (Element.isNamed_iff.1 h.isNamed).1
  rw [(Element.isNamed_iff.1 h'.isNamed).1] at hname
  exact (Kind.element_inj.1 hname).symm

end Condition

/-! ## All of them -/

namespace ModuleConditions

variable {m m' : ModuleConditions} {c c' : Condition}

/-- A condition is among those that were gathered. -/
def Includes (m : ModuleConditions) : Condition → Prop
  | .minSdk v => m.minSdk = some v
  | .maxSdk v => m.maxSdk = some v
  | .feature f => f ∈ m.features
  | .countries c => m.countries = some c
  | .groups g => m.groups = some g

theorem not_includes_empty : ¬ Includes {} c := by
  cases c <;> exact nofun

/-- One more condition is gathered, and what was gathered before stays. -/
theorem includes_add (h : m.add c = .ok m') : m'.Includes c' ↔ m.Includes c' ∨ c = c' := by
  cases c with
  | feature f =>
    cases h
    cases c' <;> simp [Includes, eq_comm (a := f)]
  | _ =>
    obtain ⟨hfree, rfl⟩ := map_once_ok_iff.1 h
    cases c' <;> simp_all [Includes]

theorem includes_foldlM {es : List Element} (h : es.foldlM addElement m = .ok m') :
    (∀ c, m'.Includes c ↔ m.Includes c ∨ ∃ child ∈ es, Condition.ofElement? child = .ok c) ∧
      ∀ child ∈ es, ∃ c, Condition.ofElement? child = .ok c := by
  induction es generalizing m with
  | nil =>
    cases h
    simp
  | cons e es ih =>
    rw [List.foldlM_cons] at h
    obtain ⟨m₁, hfirst, h⟩ := Step.ok_of_bind h
    obtain ⟨c₁, hc₁, hadd⟩ := Step.ok_of_bind hfirst
    obtain ⟨hincludes, hread⟩ := ih h
    refine ⟨fun c => ?_, List.forall_mem_cons.2 ⟨⟨c₁, hc₁⟩, hread⟩⟩
    rw [hincludes, includes_add hadd]
    simp [hc₁, or_assoc]

/-- The conditions that were gathered are those that child elements state. -/
theorem includes_iff (h : ofElement? e = .ok m) :
    m.Includes c ↔ ∃ child ∈ e.childElements, Condition.ofElement? child = .ok c := by
  rw [(includes_foldlM (ofElement?_ok_iff.1 h).1).1]
  exact or_iff_right not_includes_empty

/-- Every condition that was gathered is stated by a child. -/
theorem stated_of_includes (h : ofElement? e = .ok m) (hc : m.Includes c) :
    ∃ child ∈ e.childElements, Condition.StatedBy child c := by
  obtain ⟨child, hchild, hread⟩ := (includes_iff h).1 hc
  exact ⟨child, hchild, Condition.statedBy_of_ofElement? hread⟩

/-- Every child states a condition that was gathered. -/
theorem includes_of_mem (h : ofElement? e = .ok m) {child : Element}
    (hchild : child ∈ e.childElements) : ∃ c, Condition.StatedBy child c ∧ m.Includes c := by
  obtain ⟨c, hread⟩ := (includes_foldlM (ofElement?_ok_iff.1 h).1).2 child hchild
  exact ⟨c, Condition.statedBy_of_ofElement? hread, (includes_iff h).2 ⟨child, hchild, hread⟩⟩

end ModuleConditions

/-! ## What is asked of a device -/

/-- A condition is among those that are asked of a device. -/
def Includes (t : ModuleTargeting) : Condition → Prop
  | .minSdk v => t.minSdk = some v
  | .maxSdk v => t.maxSdk = some v
  | .feature f => f ∈ t.features
  | .countries c => t.countries = some c
  | .groups g => t.groups = g.names

/-- What is asked of a device are the conditions that were gathered.  Missing groups are
told from given ones, because these are never empty. -/
theorem ModuleConditions.includes_toTargeting {m : ModuleConditions} {c : Condition} :
    Delivery.Includes m.toTargeting c ↔ m.Includes c := by
  cases c with
  | groups g =>
    show (m.groups.map (·.names)).getD ∅ = g.names ↔ m.groups = some g
    cases hgroups : m.groups with
    | none =>
      refine iff_of_false (fun hempty : ∅ = g.names => ?_) nofun
      have hne := g.nonempty
      rw [← hempty] at hne
      cases hne
    | some held => simp [DeviceGroups.ext_iff]
  | _ => exact Iff.rfl

end Delivery

end AppBundle
