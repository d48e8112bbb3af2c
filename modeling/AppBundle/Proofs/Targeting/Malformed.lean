import AppBundle.Proofs.Targeting.Aspects

/-!
# Malformed targetings

A targeting with a value on both sides is malformed along that dimension.  Each
matcher looks for such a value before it does anything else
(`Aspect.serves?_of_overlaps`).  But dimensions are looked at one by one, and one
that does not match ends the search.  So what is said of an artifact is decided
by the dimensions before the first malformed one: when the device is served along
all of them the fault is reported, and when it is not the artifact does not match
(`DeviceSpec.malformed_outcome`).  In no case does it match.

So a fault can go unreported (`DeviceSpec.malformed_unreported`), also where the check
for compatibility, which stops at no dimension that merely does not match, finds it.
-/

namespace AppBundle

open Text

/-! ## One dimension -/

theorem Targeting.checkDisjoint_of_overlap {α : Type} [LT α] [DecidableEq α] [Display α]
    {t : Targeting α} (h : ∃ v ∈ t.values, v ∈ t.alternatives) (dimension : String) :
    ∃ v ∈ t.values, v ∈ t.alternatives ∧
      t.checkDisjoint dimension = .error (.invalidArgument (.overlap dimension (display v))) := by
  have hsome : t.shared?.isSome = true := by
    obtain ⟨v, hv, halternative⟩ := h
    exact List.find?_isSome.2 ⟨v, hv, decide_eq_true halternative⟩
  obtain ⟨v, hv⟩ := Option.isSome_iff_exists.1 hsome
  have hfound := List.find?_some (show t.values.toList.find? _ = some v from hv)
  refine ⟨v, List.mem_of_find?_eq_some hv, of_decide_eq_true hfound, ?_⟩
  simp only [checkDisjoint, hv]

namespace Aspect

/-- Some value is on both sides of what the artifact targets. -/
def Overlaps (a : Aspect) : Prop :=
  ∃ t, a.targeting = some t ∧ ∃ v ∈ t.values, v ∈ t.alternatives

/-- The error says that a value is on both sides, and which along which dimension. -/
def Reports (a : Aspect) (e : BundleError) : Prop :=
  ∃ t, a.targeting = some t ∧ ∃ v ∈ t.values, v ∈ t.alternatives ∧
    e = .invalidArgument (.overlap a.matcher.dimension (display v))

variable {a : Aspect}

theorem serves?_of_overlaps (h : a.Overlaps) : ∃ e, a.Reports e ∧ a.serves? = .error e := by
  obtain ⟨t, ht, hoverlap⟩ := h
  obtain ⟨v, hv, halternative, hcheck⟩ :=
    t.checkDisjoint_of_overlap hoverlap a.matcher.dimension
  refine ⟨_, ⟨t, ht, v, hv, halternative, rfl⟩, ?_⟩
  rw [serves?, ht]
  show a.matcher.matches? t = _
  rw [Matcher.matches?, hcheck]
  rfl

theorem serves?_of_not_overlaps (h : ¬ a.Overlaps) : ∃ b, a.serves? = .ok b := by
  cases ht : a.targeting with
  | none => exact ⟨true, by rw [serves?, ht]; rfl⟩
  | some t =>
    have hdisjoint : ∀ v ∈ t.values, v ∉ t.alternatives :=
      fun v hv halternative => h ⟨t, ht, v, hv, halternative⟩
    rw [serves?, ht]
    show ∃ b, a.matcher.matches? t = .ok b
    rw [Matcher.matches?, Step.bind_ok _ (t.checkDisjoint_of_disjoint hdisjoint _)]
    cases t.isEmpty with
    | true => exact ⟨true, rfl⟩
    | false =>
      cases a.matcher.isPresent with
      | true => exact ⟨_, rfl⟩
      | false => exact ⟨_, rfl⟩

end Aspect

/-! ## A row of dimensions -/

/-- What can be said of an artifact with these aspects when one of them is malformed.
The ones before the first that is decide. -/
inductive MalformedOutcome (as : List Aspect) : Except BundleError Bool → Prop where
  /-- The device is served along all of them, and the malformed one is reported. -/
  | reported {before after : List Aspect} {a : Aspect} {e : BundleError}
      (split : as = before ++ a :: after) (sound : ∀ b ∈ before, ¬ b.Overlaps)
      (served : ∀ b ∈ before, b.serves? = .ok true) (fault : a.Reports e) :
      MalformedOutcome as (.error e)
  /-- The device is not served along one of them, and that is the answer. -/
  | unserved {before after : List Aspect} {a b : Aspect}
      (split : as = before ++ a :: after) (sound : ∀ b ∈ before, ¬ b.Overlaps)
      (overlaps : a.Overlaps) (mem : b ∈ before) (refused : b.serves? = .ok false) :
      MalformedOutcome as (.ok false)

namespace Aspect

variable {as : List Aspect}

theorem exists_first_overlap (h : ∃ a ∈ as, a.Overlaps) :
    ∃ before a after, as = before ++ a :: after ∧ (∀ b ∈ before, ¬ b.Overlaps) ∧ a.Overlaps := by
  induction as with
  | nil =>
    obtain ⟨a, ha, -⟩ := h
    cases ha
  | cons a as ih =>
    by_cases ha : a.Overlaps
    · exact ⟨[], a, as, rfl, List.forall_mem_nil _, ha⟩
    · obtain ⟨c, hc, hoverlaps⟩ := h
      have hrest : c ∈ as := (List.mem_cons.1 hc).resolve_left fun heq => ha (heq ▸ hoverlaps)
      obtain ⟨before, b, after, rfl, hsound, hb⟩ := ih ⟨c, hrest, hoverlaps⟩
      exact ⟨a :: before, b, after, rfl, List.forall_mem_cons.2 ⟨ha, hsound⟩, hb⟩

theorem malformedOutcome_allM (h : ∃ a ∈ as, a.Overlaps) :
    MalformedOutcome as (as.allM (·.serves?)) := by
  obtain ⟨before, a, after, rfl, hsound, ha⟩ := exists_first_overlap h
  have hanswers : ∀ b ∈ before, ∃ answer, b.serves? = .ok answer :=
    fun b hb => serves?_of_not_overlaps (hsound b hb)
  by_cases hserved : ∀ b ∈ before, b.serves? = .ok true
  · obtain ⟨e, hreports, he⟩ := serves?_of_overlaps ha
    rw [Step.allM_append_of_forall hserved, Step.allM_cons, he]
    exact .reported rfl hsound hserved hreports
  · obtain ⟨b, hb, hnot⟩ : ∃ b ∈ before, b.serves? ≠ .ok true := by simpa using hserved
    have hrefused : b.serves? = .ok false := by
      obtain ⟨answer, hanswer⟩ := hanswers b hb
      cases answer with
      | true => exact absurd hanswer hnot
      | false => exact hanswer
    rw [Step.allM_append_of_exists hanswers ⟨b, hb, hrefused⟩]
    exact .unserved rfl hsound ha hb hrefused

end Aspect

namespace DeviceSpec

/-- An APK or a variant with a malformed targeting does not match any device.  It is
reported where the device is served along all dimensions before the malformed one. -/
theorem malformed_outcome (d : DeviceSpec) :
    (∀ t : ApkTargeting, (∃ a ∈ d.apkAspects t, a.Overlaps) →
      MalformedOutcome (d.apkAspects t) (d.matchesApk? t)) ∧
    ∀ t : VariantTargeting, (∃ a ∈ d.variantAspects t, a.Overlaps) →
      MalformedOutcome (d.variantAspects t) (d.matchesVariant? t) := by
  constructor
  · intro t h
    rw [matchesApk?_eq]
    exact Aspect.malformedOutcome_allM h
  · intro t h
    rw [matchesVariant?_eq]
    exact Aspect.malformedOutcome_allM h

/-- An APK for one of two ABIs that has the language French on both sides. -/
def frenchApk (abi other : Abi) : ApkTargeting where
  abi := some { values := .ofList [abi], alternatives := .ofList [other] }
  language := some { values := .ofList ["fr"], alternatives := .ofList ["de", "fr"] }

/-- A variant for one of two SDK versions that has a density on both sides. -/
def denseVariant (sdk other : Int32) : VariantTargeting where
  sdk := some { values := .ofList [sdk], alternatives := .ofList [other] }
  density := some { values := .ofList [480], alternatives := .ofList [480, 640] }

theorem overlaps_frenchApk (d : DeviceSpec) (abi other : Abi) :
    ∃ a ∈ d.apkAspects (frenchApk abi other), a.Overlaps := by
  refine ⟨⟨d.languageMatcher, (frenchApk abi other).language⟩, ?_, _, rfl, "fr", ?_, ?_⟩
  · exact .tail _ (.tail _ (.head _))
  · exact OrderedSet.mem_ofList.2 (.head _)
  · exact OrderedSet.mem_ofList.2 (.tail _ (.head _))

theorem overlaps_denseVariant (d : DeviceSpec) (sdk other : Int32) :
    ∃ a ∈ d.variantAspects (denseVariant sdk other), a.Overlaps := by
  refine ⟨⟨d.densityMatcher, (denseVariant sdk other).density⟩, ?_, _, rfl, 480, ?_, ?_⟩
  · exact .tail _ (.tail _ (.head _))
  · exact OrderedSet.mem_ofList.2 (.head _)
  · exact OrderedSet.mem_ofList.2 (.head _)

/-- Where the ABI or the SDK version is the right one, the fault is reported. -/
theorem malformed_outcome_latamDevice :
    MalformedOutcome (latamDevice.apkAspects (frenchApk .x86 .arm64V8a))
      (.error (.invalidArgument (.overlap "language" "fr"))) ∧
    MalformedOutcome (latamDevice.variantAspects (denseVariant 29 21))
      (.error (.invalidArgument (.overlap "screen density" "480"))) :=
  ⟨latamDevice.malformed_outcome.1 _ (overlaps_frenchApk _ _ _),
    latamDevice.malformed_outcome.2 _ (overlaps_denseVariant _ _ _)⟩

/-- Where a dimension before it does not match, nothing is said of the fault.  The check
for compatibility does not stop there, and reports it for the same APK. -/
theorem malformed_unreported :
    (∃ a ∈ latamDevice.apkAspects (frenchApk .arm64V8a .x86), a.Overlaps) ∧
      latamDevice.matchesApk? (frenchApk .arm64V8a .x86) = .ok false ∧
      latamDevice.checkApk (frenchApk .arm64V8a .x86) =
        .error (.invalidArgument (.overlap "language" "fr")) ∧
    (∃ a ∈ latamDevice.variantAspects (denseVariant 21 29), a.Overlaps) ∧
      latamDevice.matchesVariant? (denseVariant 21 29) = .ok false :=
  ⟨overlaps_frenchApk _ _ _, rfl, rfl, overlaps_denseVariant _ _ _, rfl⟩

end DeviceSpec

end AppBundle
