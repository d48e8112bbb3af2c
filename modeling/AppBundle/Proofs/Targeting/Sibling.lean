import AppBundle.Proofs.Targeting.Family

/-!
# One sibling serves a device

Along ABIs, densities and SDK versions a matcher picks the value that suits the
device best out of all values of a family, and the sibling that covers it
serves the device (`Matcher.Serves`).  All siblings pick the same value, as the
pick depends on the values alone and not on the side they stand on.

Every family has a density that suits a device best.  It need not have an ABI
or an SDK version that suits the device at all: then no sibling serves it, and
each of them refuses it (`Matcher.Refuses`).
-/

namespace AppBundle

/-! ## Greatest values -/

theorem lawfulOrderMax_maxOfLe {α : Type} [LE α] [DecidableLE α] [Std.IsLinearOrder α] :
    @Std.LawfulOrderMax α maxOfLe _ :=
  letI : Max α := maxOfLe
  { max_eq_or := by
      intro a b
      show (if a ≤ b then b else a) = a ∨ (if a ≤ b then b else a) = b
      split
      · exact .inr rfl
      · exact .inl rfl
    max_le_iff := by
      intro a b c
      show (if a ≤ b then b else a) ≤ c ↔ a ≤ c ∧ b ≤ c
      split
      · rename_i hab
        exact ⟨fun h => ⟨Std.le_trans hab h, h⟩, And.right⟩
      · rename_i hab
        have hba := (Std.le_total (a := a) (b := b)).resolve_left hab
        exact ⟨fun h => ⟨h, Std.le_trans hba h⟩, And.left⟩ }

instance lawfulOrderMax_word : Std.LawfulOrderMax UInt32 := lawfulOrderMax_maxOfLe

instance lawfulOrderMax_signed : Std.LawfulOrderMax Int32 := lawfulOrderMax_maxOfLe

/-! ## The best value -/

/-- The density of a set that suits a device best: the lowest that is not below
that of the device, or the highest if all are. -/
def IsBestDensity (s : OrderedSet UInt32) (density best : UInt32) : Prop :=
  best ∈ s ∧ ((density ≤ best ∧ ∀ a ∈ s, density ≤ a → best ≤ a) ∨
    (∀ a ∈ s, a < density) ∧ ∀ a ∈ s, a ≤ best)

/-- The SDK version of a set that suits a device best: the highest that is not
above that of the device. -/
def IsBestSdk (s : OrderedSet Int32) (sdk best : Int32) : Prop :=
  best ∈ s ∧ best ≤ sdk ∧ ∀ a ∈ s, a ≤ sdk → a ≤ best

/-- The ABI of a set that suits a device best: the first of the device that the set has. -/
def IsBestAbi (s : OrderedSet Abi) (abis : List Abi) (best : Abi) : Prop :=
  best ∈ s ∧ ∃ before after, abis = before ++ best :: after ∧ ∀ a ∈ before, a ∉ s

section Pick

variable {s : OrderedSet UInt32} {l : List UInt32} {density : UInt32}

theorem density_eq_some_iff (hl : ∀ a, a ∈ l ↔ a ∈ s) {best : UInt32} :
    (l.filter (density ≤ ·)).min?.or l.max? = some best ↔ IsBestDensity s density best := by
  rw [Option.or_eq_some_iff, List.min?_eq_some_iff, List.min?_eq_none_iff, List.filter_eq_nil_iff,
    List.max?_eq_some_iff]
  simp only [List.mem_filter, decide_eq_true_eq, hl, IsBestDensity, UInt32.not_le, and_imp]
  constructor
  · rintro (⟨⟨hbest, hle⟩, hleast⟩ | ⟨hbelow, hbest, hgreatest⟩)
    · exact ⟨hbest, .inl ⟨hle, hleast⟩⟩
    · exact ⟨hbest, .inr ⟨hbelow, hgreatest⟩⟩
  · rintro ⟨hbest, ⟨hle, hleast⟩ | ⟨hbelow, hgreatest⟩⟩
    · exact .inl ⟨⟨hbest, hle⟩, hleast⟩
    · exact .inr ⟨hbelow, hbest, hgreatest⟩

/-- Some density always suits best. -/
theorem exists_isBestDensity (hs : s.isEmpty = false) (density : UInt32) :
    ∃ best, IsBestDensity s density best := by
  cases hpick : (s.toList.filter (density ≤ ·)).min?.or s.toList.max? with
  | some best => exact ⟨best, (density_eq_some_iff fun a => Iff.rfl).1 hpick⟩
  | none =>
    have hempty := List.max?_eq_none_iff.1 (Option.or_eq_none_iff.1 hpick).2
    exact absurd hempty (List.isEmpty_eq_false_iff.1 hs)

end Pick

section Pick

variable {s : OrderedSet Int32} {l : List Int32} {sdk : Int32}

theorem sdk_eq_some_iff (hl : ∀ a, a ∈ l ↔ a ∈ s) {best : Int32} :
    (l.filter (· ≤ sdk)).max? = some best ↔ IsBestSdk s sdk best := by
  rw [List.max?_eq_some_iff]
  simp only [List.mem_filter, decide_eq_true_eq, hl, IsBestSdk, and_imp, and_assoc]

theorem sdk_eq_none_iff (hl : ∀ a, a ∈ l ↔ a ∈ s) :
    (l.filter (· ≤ sdk)).max? = none ↔ ∀ a ∈ s, sdk < a := by
  rw [List.max?_eq_none_iff, List.filter_eq_nil_iff]
  simp only [hl, decide_eq_true_eq, Int32.not_le]

end Pick

theorem abi_eq_some_iff {s : OrderedSet Abi} {abis : List Abi} {best : Abi} :
    abis.find? (fun a => decide (a ∈ s)) = some best ↔ IsBestAbi s abis best := by
  rw [List.find?_eq_some_iff_append]
  simp only [decide_eq_true_eq, Bool.not_eq_true', decide_eq_false_iff_not, IsBestAbi]

/-! ## Serving and refusing -/

section Outcome

variable {α : Type} [LT α] [LE α] [DecidableLT α] [Std.IsLinearOrder α] [Std.LawfulOrderLT α]
  [DecidableEq α] [Text.Display α] {n : Nat}

/-- Of a family one sibling serves the device, and none refuses it. -/
structure Matcher.Serves (m : Matcher α) (f : Family α (n + 1)) (i : Fin (n + 1)) : Prop where
  /-- The one sibling matches, the others do not. -/
  matches_eq : ∀ j, m.matches? (f.targeting j) = .ok (decide (j = i))
  /-- The device is compatible with each of them. -/
  check_eq : ∀ j, m.check (f.targeting j) = .ok ()

/-- No sibling of a family serves the device, and each refuses it. -/
structure Matcher.Refuses (m : Matcher α) (f : Family α (n + 1)) : Prop where
  /-- No sibling matches. -/
  matches_eq : ∀ j, m.matches? (f.targeting j) = .ok false
  /-- The device is compatible with none of them. -/
  check_eq : ∀ j, ∃ mismatch, m.check (f.targeting j) = .error (.incompatibleDevice mismatch)

variable {m : Matcher α} {f : Family α (n + 1)}

/-- When all siblings pick the same value out of those of the family, the one
that covers it serves the device.  When they pick none, each refuses. -/
theorem Family.serves_or_refuses (hm : m.isPresent) {pick : Option α}
    (hmem : ∀ best, pick = some best → best ∈ f.all)
    (hpick : ∀ j, m.whenPresent (f.targeting j) = (f.targeting j).covers pick)
    (hcheck : ∀ j, m.mismatch? (f.targeting j) = none ↔ pick.isSome) :
    (∃ i best, pick = some best ∧ best ∈ f.values i ∧ m.Serves f i) ∨
      (pick = none ∧ m.Refuses f) := by
  have hmatches : ∀ j, m.matches? (f.targeting j) = .ok ((f.targeting j).covers pick) := by
    intro j
    rw [← hpick]
    exact (matches?_member (some j)).trans (congrArg _ (if_pos hm))
  cases pick with
  | some best =>
    obtain ⟨i, hi⟩ := mem_all.1 (hmem best rfl)
    refine .inl ⟨i, best, rfl, hi, ?_, ?_⟩
    · intro j
      rw [hmatches, covers_targeting hi]
    · intro j
      rw [check_targeting hm, Matcher.checkPresent, (hcheck j).2 rfl]
  | none =>
    refine .inr ⟨rfl, hmatches, ?_⟩
    intro j
    cases hmismatch : m.mismatch? (f.targeting j) with
    | none => cases (hcheck j).1 hmismatch
    | some mismatch =>
      refine ⟨mismatch, ?_⟩
      rw [check_targeting hm, Matcher.checkPresent, hmismatch]

end Outcome

/-! ## The three dimensions -/

namespace DeviceSpec

variable (d : DeviceSpec) {n : Nat}

theorem density_serves (f : Family UInt32 (n + 1)) (hd : d.densityMatcher.isPresent) :
    ∃ i best, best ∈ f.values i ∧ IsBestDensity f.all d.density best ∧
      d.densityMatcher.Serves f i := by
  obtain ⟨best, hbest⟩ := exists_isBestDensity Family.isEmpty_all d.density
  have hmem : ∀ best', some best = some best' → best' ∈ f.all := by
    rintro _ ⟨⟩
    exact hbest.1
  have hpick : ∀ j, d.densityMatcher.whenPresent (f.targeting j) =
      (f.targeting j).covers (some best) := by
    intro j
    have hpick := (density_eq_some_iff fun a => Family.mem_all_targeting (j := j)).2 hbest
    exact congrArg (f.targeting j).covers hpick
  have hcheck : ∀ j, d.densityMatcher.mismatch? (f.targeting j) = none ↔ (some best).isSome :=
    fun j => ⟨fun _ => rfl, fun _ => rfl⟩
  rcases Family.serves_or_refuses hd hmem hpick hcheck
    with ⟨i, _, ⟨⟩, hi, hserves⟩ | ⟨⟨⟩, -⟩
  exact ⟨i, best, hi, hbest, hserves⟩

theorem sdk_serves (f : Family Int32 (n + 1)) (hd : d.sdkMatcher.isPresent) :
    (∃ i best, best ∈ f.values i ∧ IsBestSdk f.all d.sdkVersion best ∧ d.sdkMatcher.Serves f i) ∨
      ((∀ a ∈ f.all, d.sdkVersion < a) ∧ d.sdkMatcher.Refuses f) := by
  have hsame : ∀ j, ((f.targeting j).all.filter (· ≤ d.sdkVersion)).max? =
      (f.all.toList.filter (· ≤ d.sdkVersion)).max? := by
    intro j
    refine Option.ext fun best => ?_
    rw [sdk_eq_some_iff fun a => Family.mem_all_targeting, sdk_eq_some_iff fun a => Iff.rfl]
  have hcheck : ∀ j, d.sdkMatcher.mismatch? (f.targeting j) = none ↔
      (f.all.toList.filter (· ≤ d.sdkVersion)).max?.isSome := by
    intro j
    rw [← hsame j, Option.isSome_iff_ne_none, Ne, List.max?_eq_none_iff, List.filter_eq_nil_iff]
    simp [sdkMatcher]
  have hmem : ∀ best, (f.all.toList.filter (· ≤ d.sdkVersion)).max? = some best → best ∈ f.all :=
    fun best h => ((sdk_eq_some_iff fun a => Iff.rfl).1 h).1
  have hpick : ∀ j, d.sdkMatcher.whenPresent (f.targeting j) =
      (f.targeting j).covers (f.all.toList.filter (· ≤ d.sdkVersion)).max? :=
    fun j => congrArg (f.targeting j).covers (hsame j)
  rcases Family.serves_or_refuses hd hmem hpick hcheck
    with ⟨i, best, hpick, hi, hserves⟩ | ⟨hpick, hrefuses⟩
  · exact .inl ⟨i, best, hi, (sdk_eq_some_iff fun a => Iff.rfl).1 hpick, hserves⟩
  · exact .inr ⟨(sdk_eq_none_iff fun a => Iff.rfl).1 hpick, hrefuses⟩

theorem abi_serves (f : Family Abi (n + 1)) (hd : d.abiMatcher.isPresent) :
    (∃ i best, best ∈ f.values i ∧ IsBestAbi f.all d.knownAbis best ∧ d.abiMatcher.Serves f i) ∨
      ((∀ a ∈ d.knownAbis, a ∉ f.all) ∧ d.abiMatcher.Refuses f) := by
  have hcontains : ∀ j, (f.targeting j).contains = fun a => decide (a ∈ f.all) := by
    intro j
    exact funext fun a => Family.contains_targeting
  have hpick : ∀ j, d.abiMatcher.whenPresent (f.targeting j) =
      (f.targeting j).covers (d.knownAbis.find? fun a => decide (a ∈ f.all)) := by
    intro j
    simp only [abiMatcher, hcontains]
  have hcheck : ∀ j, d.abiMatcher.mismatch? (f.targeting j) = none ↔
      (d.knownAbis.find? fun a => decide (a ∈ f.all)).isSome := by
    intro j
    rw [List.find?_isSome]
    simp [abiMatcher, hcontains]
  rcases Family.serves_or_refuses hd (fun best h => (abi_eq_some_iff.1 h).1) hpick hcheck
    with ⟨i, best, hpick, hi, hserves⟩ | ⟨hpick, hrefuses⟩
  · exact .inl ⟨i, best, hi, abi_eq_some_iff.1 hpick, hserves⟩
  · exact .inr ⟨by simpa using List.find?_eq_none.1 hpick, hrefuses⟩

/-- Along densities exactly the sibling with the best density serves a device.
Along SDK versions and ABIs the one with the best value does, or each sibling
refuses the device because no value suits it. -/
theorem one_sibling_serves :
    (∀ f : Family UInt32 (n + 1), d.densityMatcher.isPresent →
      ∃ i best, best ∈ f.values i ∧ IsBestDensity f.all d.density best ∧
        d.densityMatcher.Serves f i) ∧
    (∀ f : Family Int32 (n + 1), d.sdkMatcher.isPresent →
      (∃ i best, best ∈ f.values i ∧ IsBestSdk f.all d.sdkVersion best ∧
        d.sdkMatcher.Serves f i) ∨
      ((∀ a ∈ f.all, d.sdkVersion < a) ∧ d.sdkMatcher.Refuses f)) ∧
    ∀ f : Family Abi (n + 1), d.abiMatcher.isPresent →
      (∃ i best, best ∈ f.values i ∧ IsBestAbi f.all d.knownAbis best ∧
        d.abiMatcher.Serves f i) ∨
      ((∀ a ∈ d.knownAbis, a ∉ f.all) ∧ d.abiMatcher.Refuses f) :=
  ⟨d.density_serves, d.sdk_serves, d.abi_serves⟩

/-- Two siblings for densities. -/
def densityFamily : Family UInt32 2 where
  values := fun | 0 => .ofList [160, 640] | 1 => .ofList [480]
  nonempty := by decide
  disjoint := by decide

/-- Two siblings for SDK versions. -/
def sdkFamily : Family Int32 2 where
  values := fun | 0 => .ofList [30] | 1 => .ofList [33, 29]
  nonempty := by decide
  disjoint := by decide

/-- Two siblings for ABIs. -/
def abiFamily : Family Abi 2 where
  values := fun | 0 => .ofList [.armeabi, .x86] | 1 => .ofList [.arm64V8a]
  nonempty := by decide
  disjoint := by decide

/-- A device between two densities, below all SDK versions, whose second ABI is unknown. -/
def intelDevice : DeviceSpec where
  abis := ["x86_64", "x86_32", "x86", "armeabi"]
  density := 420
  sdkVersion := 28

theorem one_sibling_serves_intelDevice :
    intelDevice.densityMatcher.isPresent ∧ intelDevice.sdkMatcher.isPresent ∧
      intelDevice.abiMatcher.isPresent ∧ intelDevice.densityMatcher.Serves densityFamily 1 ∧
      intelDevice.sdkMatcher.Refuses sdkFamily ∧ intelDevice.abiMatcher.Serves abiFamily 0 := by
  obtain ⟨hdensity, hsdk, habi⟩ := intelDevice.one_sibling_serves (n := 1)
  refine ⟨by decide, by decide, by decide +kernel, ?_, ?_, ?_⟩
  · obtain ⟨i, -, -, -, hserves⟩ := hdensity densityFamily (by decide)
    have hi : decide (1 = i) = true := Except.ok.inj ((hserves.matches_eq 1).symm.trans rfl)
    exact of_decide_eq_true hi ▸ hserves
  · rcases hsdk sdkFamily (by decide) with ⟨i, best, hi, hbest, -⟩ | ⟨-, hrefuses⟩
    · have hall : ∀ a ∈ sdkFamily.all, ¬ a ≤ intelDevice.sdkVersion := by decide
      exact absurd hbest.2.1 (hall best hbest.1)
    · exact hrefuses
  · rcases habi abiFamily (by decide +kernel) with ⟨i, -, -, -, hserves⟩ | ⟨hout, -⟩
    · have hi : decide (0 = i) = true := Except.ok.inj ((hserves.matches_eq 0).symm.trans rfl)
      exact of_decide_eq_true hi ▸ hserves
    · exact absurd (hout .x86) (by decide +kernel)

end DeviceSpec

end AppBundle
