import AppBundle.Proofs.Targeting.Family

/-!
# The fallback complements its siblings

The fallback of a family covers no value.  It serves the devices that no
sibling serves: those whose country set or groups or languages are not covered,
or not known, and those that read none of the texture formats.

A device has one country set, and one of the formats that it reads is best, so
there is exactly one member of the family for it (`Matcher.ServesOne`).  A
device has several groups and languages, and several siblings may serve it at
once; still the fallback serves it exactly when none of them does
(`Matcher.Complements`).
-/

namespace AppBundle

section Outcome

variable {α : Type} [LT α] [LE α] [DecidableLT α] [Std.IsLinearOrder α] [Std.LawfulOrderLT α]
  [DecidableEq α] [Text.Display α] {n : Nat}

/-- One member of a family serves the device, and no other. -/
def Matcher.ServesOne (m : Matcher α) (f : Family α (n + 1)) : Prop :=
  ∃ k, ∀ l, m.matches? (f.member l) = .ok (decide (l = k))

/-- The fallback of a family serves the device exactly when no sibling does. -/
def Matcher.Complements (m : Matcher α) (f : Family α (n + 1)) : Prop :=
  ∃ serves : Option (Fin (n + 1)) → Bool, (∀ k, m.matches? (f.member k) = .ok (serves k)) ∧
    (serves none ↔ ∀ i, ¬ serves (some i))

variable {m : Matcher α} {f : Family α (n + 1)}

theorem Matcher.ServesOne.complements (h : m.ServesOne f) : m.Complements f := by
  obtain ⟨k, hk⟩ := h
  refine ⟨fun l => decide (l = k), hk, ?_⟩
  cases k with
  | none => simp
  | some i => simp

namespace Family

/-- The fallback alone serves a device that has no value, where matchers say so. -/
theorem servesOne_of_absent (hm : m.isPresent = false)
    (habsent : ∀ t, m.whenAbsent t = t.values.isEmpty) : m.ServesOne f := by
  refine ⟨none, ?_⟩
  intro l
  rw [matches?_member, hm, habsent]
  cases l with
  | none => rfl
  | some i => simp [member, targeting, f.nonempty]

/-- A device with one value is served by the sibling that covers it, or by the fallback. -/
theorem servesOne_of_meets (hm : m.isPresent) {a : α}
    (hmeets : ∀ t, m.whenPresent t = t.meets [a]) : m.ServesOne f := by
  by_cases ha : a ∈ f.all
  · obtain ⟨i, hi⟩ := mem_all.1 ha
    refine ⟨some i, ?_⟩
    intro l
    rw [matches?_member, if_pos hm, hmeets]
    cases l with
    | none => simp [member, meets_fallback, ha]
    | some j => simp [member, meets_targeting, mem_values_iff hi]
  · refine ⟨none, ?_⟩
    intro l
    rw [matches?_member, if_pos hm, hmeets]
    cases l with
    | none => simp [member, meets_fallback, ha]
    | some j =>
      have hj : a ∉ f.values j := fun h => ha (mem_all.2 ⟨j, h⟩)
      simp [member, meets_targeting, hj]

/-- A device with several values is left to the fallback when no sibling covers one. -/
theorem complements_of_meets (hm : m.isPresent) {device : List α}
    (hmeets : ∀ t, m.whenPresent t = t.meets device) : m.Complements f := by
  refine ⟨fun k => (f.member k).meets device, ?_, ?_⟩
  · intro k
    rw [matches?_member, if_pos hm, hmeets]
  · simp only [member, meets_fallback, meets_targeting, List.all_eq_true, List.any_eq_true,
      decide_eq_true_eq, mem_all]
    constructor
    · rintro h i ⟨a, ha, hi⟩
      exact h a ha ⟨i, hi⟩
    · rintro h a ha ⟨i, hi⟩
      exact h i ⟨a, ha, hi⟩

end Family

end Outcome

/-! ## Texture formats -/

namespace TextureFormat

theorem find?_priority (a : TextureFormat) :
    all.find? (·.priority == a.priority) = some a := by
  cases a <;> rfl

/-- No two formats are preferred alike. -/
theorem eq_of_priority_eq {a b : TextureFormat} (h : a.priority = b.priority) : a = b := by
  have ha := find?_priority a
  rw [h, find?_priority b] at ha
  exact (Option.some.inj ha).symm

/-- The best of some formats is the one with the highest priority. -/
theorem maxOn?_eq_some_iff {l : List TextureFormat} {best : TextureFormat} :
    l.maxOn? priority = some best ↔ best ∈ l ∧ ∀ a ∈ l, a.priority ≤ best.priority := by
  have hgreatest : ∀ {greatest}, l.maxOn? priority = some greatest →
      ∀ a ∈ l, a.priority ≤ greatest.priority := by
    intro greatest h a ha
    have hle := List.le_apply_get_maxOn?_of_mem (f := priority) ha
    simpa only [h, Option.get_some] using hle
  constructor
  · intro h
    exact ⟨List.maxOn?_mem h, hgreatest h⟩
  · rintro ⟨hbest, hle⟩
    obtain ⟨greatest, h⟩ := Option.isSome_iff_exists.1
      (List.isSome_maxOn?_of_mem (f := priority) hbest)
    rw [h, eq_of_priority_eq (Nat.le_antisymm (hgreatest h best hbest) (hle _ (List.maxOn?_mem h)))]

/-- The best of some formats does not depend on their order. -/
theorem maxOn?_filter_congr {l l' : List TextureFormat} (h : ∀ a, a ∈ l ↔ a ∈ l')
    (p : TextureFormat → Bool) :
    (l.filter p).maxOn? priority = (l'.filter p).maxOn? priority := by
  refine Option.ext fun best => ?_
  rw [maxOn?_eq_some_iff, maxOn?_eq_some_iff]
  simp only [List.mem_filter, h]

end TextureFormat

/-! ## The dimensions with a fallback -/

variable {n : Nat}

theorem countrySet_servesOne (c : Option String) (f : Family String (n + 1)) :
    (countrySetMatcher c).ServesOne f := by
  cases c with
  | none => exact Family.servesOne_of_absent rfl fun t => rfl
  | some c => exact Family.servesOne_of_meets rfl fun t => rfl

namespace DeviceSpec

variable (d : DeviceSpec)

theorem texture_servesOne (f : Family TextureFormat (n + 1)) (h : d.glExtensions ≠ []) :
    d.textureMatcher.ServesOne f := by
  have hd : d.textureMatcher.isPresent := by simp [textureMatcher, h]
  have hsame := fun k => TextureFormat.maxOn?_filter_congr
    (fun a => Family.mem_all_member (f := f) (k := k)) (· ∈ TextureFormat.supported d.glExtensions)
  cases hpick : (f.all.toList.filter (· ∈ TextureFormat.supported d.glExtensions)).maxOn?
      TextureFormat.priority with
  | none =>
    refine ⟨none, ?_⟩
    intro l
    rw [Family.matches?_member, if_pos hd]
    simp only [textureMatcher, hsame, hpick]
    cases l with
    | none => rfl
    | some j => simp [Family.member, Family.targeting, f.nonempty]
  | some best =>
    have hbest := (List.mem_filter.1 (List.maxOn?_mem hpick)).1
    obtain ⟨i, hi⟩ := Family.mem_all.1 hbest
    refine ⟨some i, ?_⟩
    intro l
    rw [Family.matches?_member, if_pos hd]
    simp only [textureMatcher, hsame, hpick]
    cases l with
    | none => rfl
    | some j => simp [Family.member, Family.covers_targeting hi]

theorem group_complements (f : Family String (n + 1)) : d.groupMatcher.Complements f := by
  cases hd : d.groupMatcher.isPresent with
  | false => exact (Family.servesOne_of_absent hd fun t => rfl).complements
  | true => exact Family.complements_of_meets hd fun t => rfl

theorem language_complements (f : Family String (n + 1)) (h : d.languages ≠ []) :
    d.languageMatcher.Complements f := by
  refine Family.complements_of_meets ?_ fun t => rfl
  simp [languageMatcher, h]

/-- Of a family with its fallback just one serves a device, along country sets
and along texture formats where the device lists extensions.  Along groups, and
along languages where the device has one, the fallback serves it exactly when
no sibling does. -/
theorem fallback_complements :
    (∀ (c : Option String) (f : Family String (n + 1)), (countrySetMatcher c).ServesOne f) ∧
      (∀ f : Family TextureFormat (n + 1), d.glExtensions ≠ [] → d.textureMatcher.ServesOne f) ∧
      (∀ f : Family String (n + 1), d.groupMatcher.Complements f) ∧
      ∀ f : Family String (n + 1), d.languages ≠ [] → d.languageMatcher.Complements f :=
  ⟨countrySet_servesOne, d.texture_servesOne, d.group_complements, d.language_complements⟩

/-- Two siblings for texture formats; extensions of two kinds tell of the first format. -/
def formatFamily : Family TextureFormat 2 where
  values := fun | 0 => .ofList [.atc, .astc] | 1 => .ofList [.etc1Rgb8]
  nonempty := by decide
  disjoint := by decide

/-- Two siblings for languages. -/
def languageFamily : Family String 2 where
  values := fun | 0 => .ofList ["de", "fr"] | 1 => .ofList ["en"]
  nonempty := by decide +kernel
  disjoint := by decide +kernel

/-- A device that reads ETC1 and ATC, with locales of three languages. -/
def frenchDevice : DeviceSpec where
  locales := ["fr-FR", "EN_gb", "-"]
  glExtensions := ["GL_ATI_texture_compression_atitc", "GL_OES_compressed_ETC1_RGB8_texture"]

theorem fallback_complements_frenchDevice :
    frenchDevice.glExtensions ≠ [] ∧ frenchDevice.languages = ["fr", "en"] ∧
      frenchDevice.textureMatcher.matches? (formatFamily.targeting 0) = .ok true ∧
      frenchDevice.textureMatcher.ServesOne formatFamily ∧
      frenchDevice.languageMatcher.matches? (languageFamily.targeting 0) = .ok true ∧
      frenchDevice.languageMatcher.matches? (languageFamily.targeting 1) = .ok true ∧
      frenchDevice.languageMatcher.Complements languageFamily := by
  obtain ⟨-, htexture, -, hlanguage⟩ := frenchDevice.fallback_complements (n := 1)
  have hlanguages : frenchDevice.languages = ["fr", "en"] := by decide +kernel
  refine ⟨by decide, hlanguages, rfl, htexture _ (by decide), rfl, rfl, hlanguage _ ?_⟩
  rw [hlanguages]
  exact List.cons_ne_nil _ _

end DeviceSpec

end AppBundle
