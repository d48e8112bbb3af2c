import AppBundle.Proofs.Targeting.Family

/-!
# Devices that are refused

A matcher refuses a device when no artifact of the kind can serve it.  Along
device groups and along ABIs that is not quite what the check says.

* The check along groups asks for a group of the device on one of the two sides.
  A fallback has its siblings' groups only, and it serves the devices in none of
  them.  So a fallback that serves a device in some groups is refused for it
  (`DeviceSpec.check_of_matches?_groups`).
* ABIs with unknown names are left out before anything is asked.  A device that
  lists no other ABI counts as one without ABIs: every artifact serves it, and none
  is refused (`DeviceSpec.untargeted_abis`).
-/

namespace AppBundle

open Text

/-- Whether an artifact is the fallback of a family: its siblings cover values and it does not. -/
def Targeting.isFallback {α : Type} [LT α] (t : Targeting α) : Bool :=
  t.values.isEmpty && !t.alternatives.isEmpty

theorem Abi.named?_eq_some_iff {name : String} {a : Abi} :
    named? name = some a ↔ a.name = name := by
  constructor
  · intro h
    have hname := List.find?_some (show all.find? (·.name == name) = some a from h)
    exact beq_iff_eq.1 hname
  · rintro rfl
    cases a <;> rfl

namespace DeviceSpec

variable {d : DeviceSpec}

/-! ## Groups -/

section Groups

variable {t : Targeting String}

/-- Why a device is refused for its groups. -/
def groupMismatch (d : DeviceSpec) (t : Targeting String) : Mismatch :=
  .deviceGroups (listing (OrderedSet.ofList d.groups).toList) (listing t.all)

/-- An artifact that serves a device for one of its own groups is not refused. -/
theorem mismatch?_groups_of_values (hvalues : t.values.isEmpty = false)
    (h : d.groupMatcher.whenPresent t = true) : d.groupMatcher.mismatch? t = none := by
  have hserved : t.meets d.groups = true := h
  rw [Targeting.meets, hvalues, if_neg Bool.false_ne_true, List.any_eq_true] at hserved
  obtain ⟨g, hg, hcovered⟩ := hserved
  have hany : d.groups.any t.contains = true :=
    List.any_eq_true.2 ⟨g, hg, by rw [Targeting.contains, hcovered, Bool.true_or]⟩
  exact if_pos hany

/-- A fallback serves a device for lack of its groups, and that is why it is refused. -/
theorem mismatch?_groups_of_fallback (hvalues : t.values.isEmpty = true)
    (h : d.groupMatcher.whenPresent t = true) :
    d.groupMatcher.mismatch? t = some (d.groupMismatch t) := by
  have hserved : t.meets d.groups = true := h
  rw [Targeting.meets, hvalues, if_pos rfl, List.all_eq_true] at hserved
  have hvalue : ∀ g, g ∉ t.values := by
    intro g hg
    rw [← OrderedSet.mem_toList, List.isEmpty_iff.1 hvalues] at hg
    cases hg
  have hany : d.groups.any t.contains = false := by
    rw [List.any_eq_false]
    intro g hg
    have halternative : g ∉ t.alternatives := of_decide_eq_true (hserved g hg)
    simp [Targeting.contains, hvalue g, halternative]
  show (if d.groups.any t.contains then none else _) = _
  rw [hany]
  rfl

/-- A device is compatible with an artifact that serves it along its groups, unless the
artifact is a fallback and the device has groups: then it is refused. -/
theorem check_of_matches?_groups (h : d.groupMatcher.matches? t = .ok true) :
    d.groupMatcher.check t =
      if t.isFallback && !d.groups.isEmpty then .error (.incompatibleDevice (d.groupMismatch t))
      else .ok () := by
  rw [Matcher.check_of_matches?_ok h]
  cases hempty : t.isEmpty with
  | true =>
    have hboth := Bool.and_eq_true_iff.1 hempty
    rw [Targeting.isFallback, hboth.2]
    simp
  | false =>
    cases hgroups : d.groups.isEmpty with
    | true => simp [groupMatcher, hgroups]
    | false =>
      have hpresent : d.groupMatcher.isPresent = true := congrArg not hgroups
      have hserved := Matcher.whenPresent_of_matches? h hempty hpresent
      rw [hpresent, Matcher.checkPresent]
      cases hvalues : t.values.isEmpty with
      | true =>
        have hothers : t.alternatives.isEmpty = false := by
          simpa [Targeting.isEmpty, hvalues] using hempty
        rw [mismatch?_groups_of_fallback hvalues hserved, Targeting.isFallback, hvalues, hothers]
        rfl
      | false =>
        rw [mismatch?_groups_of_values hvalues hserved, Targeting.isFallback, hvalues]
        rfl

/-- A device in one group. -/
def midDevice : DeviceSpec where
  groups := ["mid"]

/-- What an artifact and its sibling target, one group each. -/
def midTargeting : Targeting String where
  values := .ofList ["mid"]
  alternatives := .ofList ["low"]

theorem check_of_matches?_groups_midDevice :
    midDevice.groupMatcher.matches? midTargeting = .ok true ∧
      midDevice.groupMatcher.check midTargeting = .ok () := by
  have hserved : midDevice.groupMatcher.matches? midTargeting = .ok true := rfl
  exact ⟨hserved, check_of_matches?_groups hserved⟩

/-- The fallback for the devices that are not in a low group. -/
def lowFallback : Targeting String where
  alternatives := .ofList ["low"]

/-- The fallback serves a device in another group, which is refused nevertheless. -/
theorem check_lowFallback :
    (∀ g ∈ lowFallback.values, g ∉ lowFallback.alternatives) ∧
      midDevice.groupMatcher.matches? lowFallback = .ok true ∧
      midDevice.groupMatcher.check lowFallback =
        .error (.incompatibleDevice (.deviceGroups "[mid]" "[low]")) :=
  ⟨by decide, rfl, rfl⟩

end Groups

/-! ## ABIs -/

section Abis

theorem mem_knownAbis {a : Abi} : a ∈ d.knownAbis ↔ a.name ∈ d.abis := by
  simp only [knownAbis, List.mem_filterMap, Abi.named?_eq_some_iff]
  constructor
  · rintro ⟨name, hname, rfl⟩
    exact hname
  · intro ha
    exact ⟨a.name, ha, rfl⟩

theorem isPresent_abiMatcher_iff : d.abiMatcher.isPresent = true ↔ ∃ a : Abi, a.name ∈ d.abis := by
  rw [abiMatcher, Bool.not_eq_true', List.isEmpty_eq_false_iff_exists_mem]
  simp only [mem_knownAbis]

variable {t : Targeting Abi}

/-- Where no known ABI is targeted, none suits the device. -/
theorem whenPresent_abi_of_untargeted (h : ∀ a ∈ d.knownAbis, t.contains a = false) :
    d.abiMatcher.whenPresent t = false := by
  have hpick : d.knownAbis.find? t.contains = none :=
    List.find?_eq_none.2 fun a ha => Bool.eq_false_iff.1 (h a ha)
  show t.covers (d.knownAbis.find? t.contains) = false
  rw [hpick]
  rfl

theorem mismatch?_abi_of_untargeted (h : ∀ a ∈ d.knownAbis, t.contains a = false) :
    d.abiMatcher.mismatch? t = some (.abi (listing d.knownAbis) (listing t.all)) := by
  have hany : d.knownAbis.any t.contains = false :=
    List.any_eq_false.2 fun a ha => Bool.eq_false_iff.1 (h a ha)
  exact if_neg (Bool.eq_false_iff.1 hany)

/-- Where no listed name is that of a targeted ABI, no artifact serves the device and it is
refused, provided that one of the names is known.  If none is, every artifact serves the device
and it is not refused. -/
theorem untargeted_abis (hdisjoint : ∀ a ∈ t.values, a ∉ t.alternatives)
    (ht : t.isEmpty = false)
    (huntargeted : ∀ a, a ∈ t.values ∨ a ∈ t.alternatives → a.name ∉ d.abis) :
    ((∃ a : Abi, a.name ∈ d.abis) →
      d.abiMatcher.matches? t = .ok false ∧
        d.abiMatcher.check t =
          .error (.incompatibleDevice (.abi (listing d.knownAbis) (listing t.all)))) ∧
      ((∀ a : Abi, a.name ∉ d.abis) →
        d.abiMatcher.matches? t = .ok true ∧ d.abiMatcher.check t = .ok ()) := by
  have hmatches := Matcher.matches?_of_disjoint (m := d.abiMatcher) hdisjoint ht
  rw [Matcher.check_of_matches?_ok hmatches, hmatches, ht, Bool.false_or]
  constructor
  · intro hknown
    have hcontains : ∀ a ∈ d.knownAbis, t.contains a = false := by
      intro a ha
      have hout := mt (huntargeted a) (not_not_intro (mem_knownAbis.1 ha))
      simpa [Targeting.contains] using hout
    rw [isPresent_abiMatcher_iff.2 hknown, whenPresent_abi_of_untargeted hcontains,
      Matcher.checkPresent, mismatch?_abi_of_untargeted hcontains]
    exact ⟨rfl, rfl⟩
  · intro hunknown
    have hpresent : d.abiMatcher.isPresent = false :=
      Bool.eq_false_iff.2 fun h => (isPresent_abiMatcher_iff.1 h).elim hunknown
    rw [hpresent]
    exact ⟨rfl, rfl⟩

/-- What an artifact for one kind of ARM and its sibling for another target. -/
def armTargeting : Targeting Abi where
  values := .ofList [.arm64V8a]
  alternatives := .ofList [.armeabiV7a]

/-- A device with a known ABI among unknown ones. -/
def mixedDevice : DeviceSpec where
  abis := ["x86_32", "x86", "loongarch64"]

theorem untargeted_abis_mixedDevice :
    (∀ a ∈ armTargeting.values, a ∉ armTargeting.alternatives) ∧ armTargeting.isEmpty = false ∧
      (∀ a, a ∈ armTargeting.values ∨ a ∈ armTargeting.alternatives →
        a.name ∉ mixedDevice.abis) ∧
      mixedDevice.abiMatcher.matches? armTargeting = .ok false ∧
      mixedDevice.abiMatcher.check armTargeting =
        .error (.incompatibleDevice (.abi "[x86]" "[arm64-v8a, armeabi-v7a]")) := by
  have hdisjoint : ∀ a ∈ armTargeting.values, a ∉ armTargeting.alternatives := by decide
  have hempty : armTargeting.isEmpty = false := rfl
  have huntargeted : ∀ a, a ∈ armTargeting.values ∨ a ∈ armTargeting.alternatives →
      a.name ∉ mixedDevice.abis := by
    rintro a (ha | ha) <;> cases List.mem_singleton.1 ha <;> decide
  have hrefused := (untargeted_abis hdisjoint hempty huntargeted).1 ⟨.x86, by decide⟩
  exact ⟨hdisjoint, hempty, huntargeted, hrefused⟩

/-- A device with unknown ABIs only. -/
def unknownDevice : DeviceSpec where
  abis := ["bogus"]

/-- No name of the device is that of a targeted ABI, and yet the artifact serves it. -/
theorem check_unknownDevice :
    unknownDevice.abis ≠ [] ∧
      (∀ a, a ∈ armTargeting.values ∨ a ∈ armTargeting.alternatives →
        a.name ∉ unknownDevice.abis) ∧
      unknownDevice.abiMatcher.matches? armTargeting = .ok true ∧
      unknownDevice.abiMatcher.check armTargeting = .ok () := by
  refine ⟨by decide, ?_, rfl, rfl⟩
  rintro a (ha | ha) <;> cases List.mem_singleton.1 ha <;> decide

end Abis

end DeviceSpec

end AppBundle
