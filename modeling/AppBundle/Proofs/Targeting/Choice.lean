import AppBundle.Proofs.Targeting.Aspects
import Mathlib.Data.List.Nodup

/-!
# Choosing a variant

Variants are looked at one by one, and the best one so far is kept.  `Chosen`
says what is best among the variants that have been seen: nothing while none of
them serves the device, and after that one that serves it, with the highest number
of all that do and before all others with that number.  One more variant keeps the
best one (`Chosen.keep`) or takes its place (`Chosen.take`), and so the one that is
left in the end is the best of all (`InstallRequest.exists_chosen`).

Which variant is best depends on the order only where two of them have the same
number (`Chosen.eq_of_perm`).
-/

namespace AppBundle

namespace InstallRequest

/-- A variant serves the device. -/
def Serves (r : InstallRequest) (v : Variant) : Prop :=
  r.device.matchesVariant? v.targeting = .ok true

/-- The best of some variants, if there is one. -/
inductive Chosen (r : InstallRequest) (vs : List Variant) : Option Variant → Prop where
  /-- Nothing is chosen where no variant serves the device. -/
  | nothing (unserved : ∀ v ∈ vs, ¬ r.Serves v) : Chosen r vs none
  /-- Otherwise it is the first of those with the highest number. -/
  | variant {v : Variant} {before after : List Variant} (split : vs = before ++ v :: after)
      (serves : r.Serves v) (highest : ∀ w ∈ vs, r.Serves w → w.number ≤ v.number)
      (first : ∀ w ∈ before, r.Serves w → w.number < v.number) : Chosen r vs (some v)

variable {r : InstallRequest} {seen vs ws : List Variant} {v : Variant} {best : Option Variant}

/-! ## One variant more -/

/-- A variant that does not serve the device, or not with a higher number, is left out. -/
theorem Chosen.keep (h : Chosen r seen best)
    (hv : r.Serves v → ∃ u, best = some u ∧ v.number ≤ u.number) :
    Chosen r (seen ++ [v]) best := by
  cases h with
  | nothing unserved =>
    refine .nothing fun w hw hserves => ?_
    rcases List.mem_append.1 hw with hw | hw
    · exact unserved w hw hserves
    · cases List.mem_singleton.1 hw
      obtain ⟨u, hu, -⟩ := hv hserves
      cases hu
  | @variant u before after split serves highest first =>
    refine .variant (split.symm ▸ List.append_assoc before (u :: after) [v]) serves ?_ first
    intro w hw hserves
    rcases List.mem_append.1 hw with hw | hw
    · exact highest w hw hserves
    · cases List.mem_singleton.1 hw
      obtain ⟨u', hu, hle⟩ := hv hserves
      cases hu
      exact hle

/-- A variant that serves the device takes the place of one with a lower number. -/
theorem Chosen.take (h : Chosen r seen best) (hv : r.Serves v)
    (hhigher : ∀ u, best = some u → u.number < v.number) :
    Chosen r (seen ++ [v]) (some v) := by
  have hbelow : ∀ w ∈ seen, r.Serves w → w.number < v.number := by
    intro w hw hserves
    cases h with
    | nothing unserved => exact absurd hserves (unserved w hw)
    | variant _ _ highest _ =>
      exact UInt32.lt_of_le_of_lt (highest w hw hserves) (hhigher _ rfl)
  refine .variant rfl hv ?_ hbelow
  intro w hw hserves
  rcases List.mem_append.1 hw with hw | hw
  · exact UInt32.le_of_lt (hbelow w hw hserves)
  · cases List.mem_singleton.1 hw
    exact UInt32.le_refl _

theorem better?_chosen (hv : ∃ b, r.device.matchesVariant? v.targeting = .ok b)
    (h : Chosen r seen best) :
    ∃ next, r.better? best v = .ok next ∧ Chosen r (seen ++ [v]) next := by
  obtain ⟨b, hb⟩ := hv
  rw [better?, Step.bind_ok _ hb]
  cases b with
  | false =>
    refine ⟨best, rfl, h.keep fun hserves => ?_⟩
    cases hb.symm.trans hserves
  | true =>
    cases hhigher : best.all (·.number < v.number) with
    | true =>
      refine ⟨some v, rfl, h.take hb ?_⟩
      rintro u rfl
      simpa using hhigher
    | false =>
      refine ⟨best, rfl, h.keep fun _ => ?_⟩
      cases best with
      | none => cases hhigher
      | some u => exact ⟨u, rfl, by simpa using hhigher⟩

/-! ## All variants -/

/-- What is best so far is best in the end among all that were seen and all that follow. -/
theorem foldlM_chosen (hvs : ∀ v ∈ vs, ∃ b, r.device.matchesVariant? v.targeting = .ok b)
    (h : Chosen r seen best) :
    ∃ last, vs.foldlM r.better? best = .ok last ∧ Chosen r (seen ++ vs) last := by
  induction vs generalizing seen best with
  | nil => exact ⟨best, rfl, by rwa [List.append_nil]⟩
  | cons v vs ih =>
    obtain ⟨hv, hvs⟩ := List.forall_mem_cons.1 hvs
    obtain ⟨next, hnext, hchosen⟩ := better?_chosen hv h
    obtain ⟨last, hlast, hchosen⟩ := ih hvs hchosen
    refine ⟨last, ?_, by simpa using hchosen⟩
    rw [List.foldlM_cons, Step.bind_ok _ hnext, hlast]

/-- Where every variant can be decided, the best of all is chosen. -/
theorem exists_chosen (hvs : ∀ v ∈ vs, ∃ b, r.device.matchesVariant? v.targeting = .ok b) :
    ∃ best, r.variant? vs = .ok best ∧ Chosen r vs best := by
  have hnone : Chosen r [] none := .nothing (List.forall_mem_nil _)
  exact foldlM_chosen hvs hnone

/-- Among variants with different numbers the best one is the same in any order. -/
theorem Chosen.eq_of_perm {best' : Option Variant} (hnumbers : (vs.map Variant.number).Nodup)
    (hperm : ws.Perm vs) (h : Chosen r vs best) (h' : Chosen r ws best') : best' = best := by
  cases h with
  | nothing unserved =>
    cases h' with
    | nothing _ => rfl
    | variant split serves _ _ =>
      exact absurd serves (unserved _ (hperm.mem_iff.1 (by simp [split])))
  | @variant v _ _ split serves highest _ =>
    have hv : v ∈ vs := by simp [split]
    cases h' with
    | nothing unserved => exact absurd serves (unserved _ (hperm.mem_iff.2 hv))
    | @variant w _ _ split' serves' highest' _ =>
      have hw : w ∈ vs := hperm.mem_iff.1 (by simp [split'])
      have hnumber : w.number = v.number :=
        UInt32.le_antisymm (highest w hw serves') (highest' v (hperm.mem_iff.2 hv) serves)
      rw [List.inj_on_of_nodup_map hnumbers hw hv hnumber]

/-- Where every variant can be decided, none is chosen exactly when none serves the
device, and otherwise it is the first of those that serve it with the highest number.
The order of variants with different numbers does not matter. -/
theorem variant?_greatest (r : InstallRequest) {vs : List Variant}
    (hvs : ∀ v ∈ vs, ∃ b, r.device.matchesVariant? v.targeting = .ok b) :
    (r.variant? vs = .ok none ↔ ∀ v ∈ vs, ¬ r.Serves v) ∧
      ((∃ v ∈ vs, r.Serves v) → ∃ v before after, r.variant? vs = .ok (some v) ∧
        vs = before ++ v :: after ∧ r.Serves v ∧
        (∀ w ∈ vs, r.Serves w → w.number ≤ v.number) ∧
        ∀ w ∈ before, r.Serves w → w.number < v.number) ∧
      ((vs.map Variant.number).Nodup → ∀ ws, ws.Perm vs →
        r.variant? ws = r.variant? vs ∧ r.apks? ws = r.apks? vs) := by
  obtain ⟨best, hbest, hchosen⟩ := exists_chosen hvs
  rw [hbest]
  refine ⟨?_, ?_, ?_⟩
  · cases hchosen with
    | nothing unserved => exact iff_of_true rfl unserved
    | variant split serves _ _ =>
      exact iff_of_false nofun fun unserved => unserved _ (by simp [split]) serves
  · rintro ⟨v, hv, hserves⟩
    cases hchosen with
    | nothing unserved => exact absurd hserves (unserved v hv)
    | variant split serves highest first => exact ⟨_, _, _, rfl, split, serves, highest, first⟩
  · intro hnumbers ws hperm
    obtain ⟨best', hbest', hchosen'⟩ := exists_chosen fun v hv => hvs v (hperm.mem_iff.1 hv)
    have hsame : r.variant? ws = r.variant? vs := by
      rw [hbest', hbest, hchosen.eq_of_perm hnumbers hperm hchosen']
    exact ⟨hbest ▸ hsame, by rw [apks?, apks?, hsame]⟩

/-- A wish to install an app on a device with SDK version 30. -/
def latamRequest : InstallRequest where
  device := DeviceSpec.latamDevice

/-- A variant for the lowest of some SDK versions, with a path of its own. -/
def sdkVariant (number : UInt32) (sdk : Int32) (others : List Int32) (path : Path) : Variant where
  number := number
  targeting := { sdk := some { values := .ofList [sdk], alternatives := .ofList others } }
  sets := [
    { moduleName := "base", install := .always, targeting := {}
      apks := [{ path, targeting := {} }] }]

/-- Three variants for one device, of which the one with the highest number does not serve it. -/
def sdkVariants : List Variant := [
  sdkVariant 0 21 [29, 31] ⟨["old.apk"], by decide⟩,
  sdkVariant 2 31 [21, 29] ⟨["new.apk"], by decide⟩,
  sdkVariant 1 29 [21, 31] ⟨["base.apk"], by decide⟩]

theorem variant?_greatest_latamRequest :
    (∀ v ∈ sdkVariants, ∃ b, latamRequest.device.matchesVariant? v.targeting = .ok b) ∧
      (sdkVariants.map Variant.number).Nodup ∧
      (∃ v ∈ sdkVariants, latamRequest.Serves v ∧ v.number = 1) ∧
      latamRequest.apks? sdkVariants.reverse = .ok [⟨["base.apk"], by decide⟩] := by
  have hdecided : ∀ v ∈ sdkVariants,
      ∃ b, latamRequest.device.matchesVariant? v.targeting = .ok b := by
    simp only [sdkVariants, List.forall_mem_cons]
    exact ⟨⟨false, rfl⟩, ⟨false, rfl⟩, ⟨true, rfl⟩, List.forall_mem_nil _⟩
  have hnumbers : (sdkVariants.map Variant.number).Nodup := by decide
  obtain ⟨-, hserved, hperm⟩ := latamRequest.variant?_greatest hdecided
  have hsome : ∃ v ∈ sdkVariants, latamRequest.Serves v :=
    ⟨_, .tail _ (.tail _ (.head _)), rfl⟩
  refine ⟨hdecided, hnumbers, ?_, ?_⟩
  · obtain ⟨v, before, after, hv, hsplit, hserves, -, -⟩ := hserved hsome
    exact ⟨v, by simp [hsplit], hserves, by cases hv; rfl⟩
  · rw [(hperm hnumbers _ (List.reverse_perm _)).2]
    rfl

end InstallRequest

end AppBundle
