import AppBundle.Proofs.Delivery.Stated
import AppBundle.Proofs.Targeting.Family
import AppBundle.Targeting.Feature

/-!
# When install conditions hold on a device

`Condition.HoldsOn` says of each kind of condition when it holds on a device.
Countries always do, because a device does not tell where its user is.  Whether
all conditions of a module hold is decided without an error
(`DeviceSpec.satisfies?_eq`), and on a device with a known SDK version they do
when each of them does (`DeviceSpec.satisfied_iff`).

A device lists its features as texts.  `DeviceSpec.Lists` says how a text reads,
and `DeviceSpec.LastListed` picks the last text with a name.
-/

namespace AppBundle

open Delivery Text

variable {d : DeviceSpec}

namespace DeviceSpec

variable {name listed : String}

/-! ## Features -/

/-- A listed text has a name up to its first equals sign, and behind it perhaps a version. -/
inductive Lists (listed name : String) : Option (List Char) → Prop where
  /-- Without an equals sign the text is the name. -/
  | bare (text_eq : listed = name) (plain : '=' ∉ name.toList) : Lists listed name none
  /-- The version is everything behind the first equals sign. -/
  | versioned {version : List Char} (text_eq : listed.toList = name.toList ++ '=' :: version)
      (plain : '=' ∉ name.toList) : Lists listed name (some version)

/-- The last listed text with this name, and the version that it carries. -/
def LastListed (d : DeviceSpec) (name : String) (version : Option (List Char)) : Prop :=
  ∃ before listed after, d.features = before ++ listed :: after ∧ Lists listed name version ∧
    ∀ later ∈ after, ∀ v, ¬ Lists later name v

theorem plain_iff {cs : List Char} : (∀ c ∈ cs, (c == '=') = false) ↔ '=' ∉ cs := by
  constructor
  · intro h hmem
    exact absurd (h _ hmem) (by decide)
  · intro h c hc
    exact beq_eq_false_iff_ne.2 fun heq => h (heq ▸ hc)

theorem lists_iff {version : Option (List Char)} :
    Lists listed name version ↔ cutAt (· == '=') listed.toList = (name.toList, version) := by
  constructor
  · intro h
    cases h with
    | bare htext hplain =>
      rw [htext]
      exact cutAt_eq_none (plain_iff.2 hplain)
    | versioned htext hplain =>
      rw [htext]
      exact cutAt_append (plain_iff.2 hplain) rfl _
  · intro h
    cases version with
    | none =>
      obtain ⟨htext, hplain⟩ := eq_of_cutAt_none h
      exact .bare (String.toList_inj.1 htext) (plain_iff.1 hplain)
    | some version =>
      obtain ⟨c, hc, htext, hplain⟩ := eq_of_cutAt_some h
      rw [beq_iff_eq.1 hc] at htext
      exact .versioned htext (plain_iff.1 hplain)

theorem featureOf_eq_iff {available : Option Int} :
    featureOf listed = (name, available) ↔
      ∃ version, Lists listed name version ∧ version.bind featureVersion? = available := by
  simp only [lists_iff]
  constructor
  · intro h
    obtain ⟨hname, havailable⟩ := Prod.mk.inj h
    refine ⟨_, Prod.ext ?_ rfl, havailable⟩
    rw [← hname, String.toList_ofList]
  · rintro ⟨version, hcut, rfl⟩
    simp [featureOf, hcut]

theorem featureOf_fst_eq_iff :
    (featureOf listed).1 = name ↔ ∃ version, Lists listed name version := by
  constructor
  · intro h
    obtain ⟨version, hlists, -⟩ := featureOf_eq_iff.1 (Prod.ext h rfl)
    exact ⟨version, hlists⟩
  · rintro ⟨version, hlists⟩
    rw [featureOf_eq_iff.2 ⟨version, hlists, rfl⟩]

/-- Of all texts with a name the last one counts. -/
theorem feature?_eq_some_iff {available : Option Int} :
    d.feature? name = some available ↔
      ∃ version, d.LastListed name version ∧ version.bind featureVersion? = available := by
  rw [feature?, List.lookup_eq_some_iff]
  constructor
  · rintro ⟨front, back, hsplit, hfront⟩
    obtain ⟨after, rest, hfeatures, hafter, hrest⟩ := List.map_eq_append_iff.1 hsplit
    obtain ⟨listed, before, rfl, hlisted, -⟩ := List.map_eq_cons_iff.1 hrest
    obtain ⟨version, hlists, havailable⟩ := featureOf_eq_iff.1 hlisted
    refine ⟨version, ⟨before.reverse, listed, after.reverse, ?_, hlists, ?_⟩, havailable⟩
    · have hreversed := congrArg List.reverse hfeatures
      simpa using hreversed
    · intro later hlater v hv
      have hmem : featureOf later ∈ front :=
        hafter ▸ List.mem_map_of_mem (List.mem_reverse.1 hlater)
      have hne := hfront _ hmem
      simp [featureOf_fst_eq_iff.2 ⟨v, hv⟩] at hne
  · rintro ⟨version, ⟨before, listed, after, hfeatures, hlists, hafter⟩, havailable⟩
    refine ⟨after.reverse.map featureOf, before.reverse.map featureOf, ?_, ?_⟩
    · rw [hfeatures, ← featureOf_eq_iff.2 ⟨version, hlists, havailable⟩]
      simp
    · intro p hp
      obtain ⟨later, hlater, rfl⟩ := List.mem_map.1 hp
      rw [bne_iff_ne]
      intro heq
      obtain ⟨v, hv⟩ := featureOf_fst_eq_iff.1 heq.symm
      exact hafter later (List.mem_reverse.1 hlater) v hv

/-- A device has a feature when the last text with its name carries a version
that is not below the required one. -/
theorem hasFeature_iff {f : DeviceFeature} :
    d.hasFeature f ↔ ∃ version, d.LastListed f.name version ∧
      ∀ required, f.version = some required →
        ∃ available, version.bind featureVersion? = some available ∧
          required.toInt ≤ available := by
  have hfound : d.hasFeature f ↔ ∃ available, d.feature? f.name = some available ∧
      ∀ required, f.version = some required →
        ∃ n, available = some n ∧ required.toInt ≤ n := by
    simp only [hasFeature]
    grind
  rw [hfound]
  simp only [feature?_eq_some_iff]
  grind

end DeviceSpec

/-! ## One condition -/

/-- A condition holds on a device. -/
def Delivery.Condition.HoldsOn (d : DeviceSpec) : Condition → Prop
  | .minSdk v => v ≤ d.sdkVersion
  | .maxSdk v => d.sdkVersion ≤ v
  | .feature f => ∃ version, d.LastListed f.name version ∧
      ∀ required, f.version = some required →
        ∃ available, version.bind DeviceSpec.featureVersion? = some available ∧
          required.toInt ≤ available
  | .countries _ => True
  | .groups g => ∃ name ∈ d.groups, name ∈ g.names

/-- What an element states holds on a device or does not, however it is read. -/
theorem Delivery.Condition.StatedBy.holdsOn_congr {e : Xml.Element} {c c' : Condition}
    (h : StatedBy e c) (h' : StatedBy e c') (hc : c.HoldsOn d) : c'.HoldsOn d := by
  have hkind := h.kind_eq h'
  cases h with
  | minSdk _ hv =>
    cases h' with
    | minSdk _ hw => exact hv.unique hw ▸ hc
    | _ => cases hkind
  | maxSdk _ hv =>
    cases h' with
    | maxSdk _ hw => exact hv.unique hw ▸ hc
    | _ => cases hkind
  | feature _ hname hversion =>
    cases h' with
    | feature _ hname' hversion' =>
      obtain ⟨version, hlast, hrequired⟩ := hc
      refine ⟨version, hname.unique hname' ▸ hlast, ?_⟩
      intro required hv
      exact hrequired required ((hversion required).2 ((hversion' required).1 hv))
    | _ => cases hkind
  | countries _ =>
    cases h' with
    | countries _ => trivial
    | _ => cases hkind
  | groups _ hnames =>
    cases h' with
    | groups _ hnames' =>
      obtain ⟨g, hg, hmem⟩ := hc
      exact ⟨g, hg, (hnames' g).2 ((hnames g).1 hmem)⟩
    | _ => cases hkind

namespace DeviceSpec

/-! ## All conditions -/

/-- A device serves groups without alternatives when it belongs to one of them. -/
theorem matches?_groups {groups : OrderedSet String} (h : groups.isEmpty = false) :
    d.groupMatcher.matches? { values := groups } =
      .ok (d.groups.any fun g => decide (g ∈ groups)) := by
  have hdisjoint : ∀ g ∈ groups, g ∉ (∅ : OrderedSet String) := by
    intro g hg hnone
    cases hnone
  rw [Matcher.matches?_of_disjoint hdisjoint (by simp [Targeting.isEmpty, h])]
  cases hgroups : d.groups with
  | nil => simp [groupMatcher, hgroups, h]
  | cons g gs => simp [groupMatcher, hgroups, h, Targeting.meets]

/-- Whether conditions hold is always decided. -/
theorem satisfies?_eq (d : DeviceSpec) (t : ModuleTargeting) :
    d.satisfies? t = .ok (d.inSdkRange t && t.features.all d.hasFeature &&
      (t.groups.isEmpty || d.groups.any fun g => decide (g ∈ t.groups))) := by
  cases hrange : d.inSdkRange t with
  | false => simp [satisfies?, hrange]
  | true =>
    cases hfeatures : t.features.all d.hasFeature with
    | false => simp only [satisfies?, hrange, hfeatures]; rfl
    | true =>
      cases hgroups : t.groups.isEmpty with
      | true => simp only [satisfies?, hrange, hfeatures, hgroups]; rfl
      | false =>
        simp only [satisfies?, hrange, hfeatures, hgroups, matches?_groups hgroups]
        rfl

theorem inSdkRange_iff (hd : 0 < d.sdkVersion) {t : ModuleTargeting} :
    d.inSdkRange t ↔ (∀ v, t.minSdk = some v → v ≤ d.sdkVersion) ∧
      ∀ v, t.maxSdk = some v → d.sdkVersion ≤ v := by
  have hknown : ¬ d.sdkVersion ≤ 0 := Int32.not_le.2 hd
  cases hmin : t.minSdk <;> cases hmax : t.maxSdk <;> simp [inSdkRange, hknown, hmin, hmax]

/-- Conditions hold together on a device with a known SDK version when each of them does. -/
theorem satisfied_iff (hd : 0 < d.sdkVersion) {t : ModuleTargeting} :
    d.satisfies? t = .ok true ↔ ∀ c, Includes t c → c.HoldsOn d := by
  rw [satisfies?_eq, Except.ok.injEq, Bool.and_eq_true, Bool.and_eq_true, inSdkRange_iff hd,
    List.all_eq_true]
  constructor
  · rintro ⟨⟨⟨hmin, hmax⟩, hfeatures⟩, hgroups⟩ c hc
    cases c with
    | minSdk v => exact hmin v hc
    | maxSdk v => exact hmax v hc
    | feature f => exact hasFeature_iff.1 (hfeatures f hc)
    | countries c => trivial
    | groups g =>
      have hasked : t.groups = g.names := hc
      rw [hasked, g.nonempty] at hgroups
      simpa [Condition.HoldsOn] using hgroups
  · intro h
    refine ⟨⟨⟨fun v => h (.minSdk v), fun v => h (.maxSdk v)⟩, ?_⟩, ?_⟩
    · intro f hf
      exact hasFeature_iff.2 (h (.feature f) hf)
    · cases hne : t.groups.isEmpty with
      | true => rfl
      | false =>
        have hgroups := h (.groups ⟨t.groups, hne⟩) rfl
        simpa [Condition.HoldsOn] using hgroups

end DeviceSpec

end AppBundle
