import AppBundle.Proofs.Reading
import AppBundle.Proofs.Targeting.Family
import AppBundle.Targeting.Variant

/-!
# A device along several dimensions

An APK is targeted along six dimensions and a variant along four.  An `Aspect`
is one dimension with its matcher and what is targeted there, if anything is, and
an artifact has a row of them.  To match the artifact is to ask the row one by
one, up to the first that says no (`DeviceSpec.matchesApk?_eq`).  To check it is
to check the row (`DeviceSpec.checkApk_eq`).

The two questions are answered by different parts of a matcher.  Where they go
together in each dimension (`Matcher.Coherent`), they do so for the whole row:
an APK that matches a device is never refused for it
(`DeviceSpec.checkApk_of_matchesApk?`).
-/

namespace AppBundle

open Text

/-! ## Aspects -/

/-- A dimension with what a device and an artifact say about it. -/
structure Aspect where
  /-- The values along the dimension. -/
  {Value : Type}
  [lt : LT Value]
  [decEq : DecidableEq Value]
  [shown : Display Value]
  /-- What decides for the device. -/
  matcher : Matcher Value
  /-- What the artifact targets. -/
  targeting : Option (Targeting Value)

attribute [instance] Aspect.lt Aspect.decEq Aspect.shown

namespace Aspect

/-- Whether the artifact serves the device as far as this dimension goes. -/
def serves? (a : Aspect) : Except BundleError Bool := a.matcher.matchesOptional? a.targeting

/-- Fails when no artifact can serve the device along this dimension. -/
def check (a : Aspect) : Except BundleError Unit := a.matcher.checkOptional a.targeting

end Aspect

namespace DeviceSpec

/-- The aspects of an APK, in the order in which they are looked at. -/
def apkAspects (d : DeviceSpec) (t : ApkTargeting) : List Aspect :=
  [⟨d.abiMatcher, t.abi⟩, ⟨d.densityMatcher, t.density⟩, ⟨d.languageMatcher, t.language⟩,
    ⟨d.sdkMatcher, t.sdk⟩, ⟨d.textureMatcher, t.texture⟩,
    ⟨countrySetMatcher d.countrySet, t.countrySet⟩]

/-- The aspects of a variant, in the order in which they are looked at. -/
def variantAspects (d : DeviceSpec) (t : VariantTargeting) : List Aspect :=
  [⟨d.sdkMatcher, t.sdk⟩, ⟨d.abiMatcher, t.abi⟩, ⟨d.densityMatcher, t.density⟩,
    ⟨d.textureMatcher, t.texture⟩]

theorem matchesApk?_eq (d : DeviceSpec) (t : ApkTargeting) :
    d.matchesApk? t = (d.apkAspects t).allM (·.serves?) := by
  simp only [apkAspects, Step.allM_cons, Step.andM_allM_nil]
  rfl

theorem matchesVariant?_eq (d : DeviceSpec) (t : VariantTargeting) :
    d.matchesVariant? t = (d.variantAspects t).allM (·.serves?) := by
  simp only [variantAspects, Step.allM_cons, Step.andM_allM_nil]
  rfl

theorem checkApk_eq (d : DeviceSpec) (t : ApkTargeting) :
    d.checkApk t = (d.apkAspects t).forM (·.check) := by
  simp only [apkAspects, List.forM, bind_pure_unit]
  rfl

end DeviceSpec

/-! ## Matching and compatibility -/

/-- An artifact with a value that suits best has such a value. -/
theorem Targeting.isSome_of_covers {α : Type} [LT α] [DecidableEq α] {t : Targeting α}
    {best : Option α} (h : t.covers best = true) : best.isSome = true := by
  cases best with
  | none => cases h
  | some best => rfl

namespace Matcher

variable {α : Type} [LT α] {m : Matcher α}

/-- Where the matcher lets an artifact serve the device, it refuses no artifact of the kind. -/
def Coherent (m : Matcher α) : Prop := ∀ t, m.whenPresent t = true → m.mismatch? t = none

theorem Coherent.check_of_matches? [DecidableEq α] [Display α] (hm : m.Coherent)
    {t : Targeting α} (h : m.matches? t = .ok true) : m.check t = .ok () := by
  rw [check_of_matches?_ok h]
  cases hempty : t.isEmpty with
  | true => rfl
  | false =>
    cases hpresent : m.isPresent with
    | false => rfl
    | true =>
      show m.checkPresent t = .ok ()
      rw [checkPresent, hm t (whenPresent_of_matches? h hempty hpresent)]

end Matcher

theorem Aspect.check_of_serves? {a : Aspect} (ha : a.matcher.Coherent)
    (h : a.serves? = .ok true) : a.check = .ok () := by
  obtain ⟨m, targeting⟩ := a
  cases targeting with
  | none => rfl
  | some t => exact ha.check_of_matches? h

theorem countrySetMatcher_coherent (c : Option String) : (countrySetMatcher c).Coherent := by
  intro t h
  simp only [countrySetMatcher]
  split
  · rfl
  · rename_i hvalues
    cases c with
    | none => rfl
    | some c =>
      have hc : c ∈ t.values := by simpa [countrySetMatcher, Targeting.meets, hvalues] using h
      simp [Targeting.contains, hc]

namespace DeviceSpec

variable (d : DeviceSpec)

theorem abiMatcher_coherent : d.abiMatcher.Coherent := by
  intro t h
  have hany : d.knownAbis.any t.contains = true := by
    rw [List.any_eq_true, ← List.find?_isSome]
    exact Targeting.isSome_of_covers h
  exact if_pos hany

theorem sdkMatcher_coherent : d.sdkMatcher.Coherent := by
  intro t h
  have hany : t.all.any (· ≤ d.sdkVersion) = true := by
    have hsome : (t.all.filter (· ≤ d.sdkVersion)).max?.isSome = true :=
      Targeting.isSome_of_covers h
    obtain ⟨a, ha⟩ := List.exists_mem_of_ne_nil _ (List.isSome_max?_iff.1 hsome)
    obtain ⟨hmem, hle⟩ := List.mem_filter.1 ha
    exact List.any_eq_true.2 ⟨a, hmem, hle⟩
  exact if_pos hany

theorem coherent_of_mem_apkAspects (t : ApkTargeting) :
    ∀ a ∈ d.apkAspects t, a.matcher.Coherent := by
  simp only [apkAspects, List.forall_mem_cons]
  exact ⟨d.abiMatcher_coherent, fun _ _ => rfl, fun _ _ => rfl, d.sdkMatcher_coherent,
    fun _ _ => rfl, countrySetMatcher_coherent d.countrySet, List.forall_mem_nil _⟩

variable {d} {t : ApkTargeting}

/-- An APK that matches a device is compatible with it. -/
theorem checkApk_of_matchesApk? (h : d.matchesApk? t = .ok true) : d.checkApk t = .ok () := by
  rw [matchesApk?_eq, Step.allM_eq_true_iff] at h
  rw [checkApk_eq, Step.forM_ok_iff]
  intro a ha
  exact Aspect.check_of_serves? (d.coherent_of_mem_apkAspects t a ha) (h a ha)

/-- A device that has a value along each dimension. -/
def latamDevice : DeviceSpec where
  abis := ["x86_64", "x86"]
  density := 420
  locales := ["fr-CA", "en"]
  sdkVersion := 30
  glExtensions := ["GL_OES_compressed_ETC1_RGB8_texture", "GL_AMD_compressed_ATC_texture"]
  countrySet := some "latam"

/-- An APK that is targeted along each dimension, for languages as the fallback. -/
def latamApk : ApkTargeting where
  abi := some { values := .ofList [.x86], alternatives := .ofList [.arm64V8a] }
  density := some { values := .ofList [480], alternatives := .ofList [320, 640] }
  language := some { alternatives := .ofList ["de", "es"] }
  sdk := some { values := .ofList [29], alternatives := .ofList [21, 31] }
  texture := some { values := .ofList [.atc], alternatives := .ofList [.astc, .etc1Rgb8] }
  countrySet := some { values := .ofList ["latam"], alternatives := .ofList ["sea"] }

theorem checkApk_of_matchesApk?_latamDevice :
    latamDevice.matchesApk? latamApk = .ok true ∧ latamDevice.checkApk latamApk = .ok () := by
  have hmatches : latamDevice.matchesApk? latamApk = .ok true := rfl
  exact ⟨hmatches, checkApk_of_matchesApk? hmatches⟩

end DeviceSpec

end AppBundle
