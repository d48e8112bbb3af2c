import AppBundle.Proofs.Reading
import AppBundle.Targeting.Variant

/-!
# Asking for modules

A module that is asked for is installed whatever its delivery says, and asking
for it makes no difference to any other module.  So when more modules are asked
for, the modules that were installed before are installed still
(`InstallRequest.installs?_cases`), and the row of paths gets longer: the paths
that were there stay in their order, and those that come between them are of
modules that were not asked for before (`Widens`).

That holds of the paths of one module (`InstallRequest.setPaths?_widens`) and is
put together module by module for a variant, where the same module may occur
more than once.
-/

namespace AppBundle

/-! ## Longer rows -/

/-- A row and a longer one: nothing is lost or changes its place among the
others, and whatever is added has a property. -/
inductive Widens {α : Type} (P : α → Prop) : List α → List α → Prop where
  /-- There is nothing in either row. -/
  | nil : Widens P [] []
  /-- A member stays. -/
  | keep {a : α} {as bs : List α} (rest : Widens P as bs) : Widens P (a :: as) (a :: bs)
  /-- A member is added. -/
  | add {b : α} {as bs : List α} (added : P b) (rest : Widens P as bs) : Widens P as (b :: bs)

namespace Widens

variable {α : Type} {P Q : α → Prop} {as bs cs ds : List α}

theorem refl (as : List α) : Widens P as as := by
  induction as with
  | nil => exact .nil
  | cons a as ih => exact .keep ih

/-- A row of which every member is added. -/
theorem of_forall (h : ∀ b ∈ bs, P b) : Widens P [] bs := by
  induction bs with
  | nil => exact .nil
  | cons b bs ih =>
    obtain ⟨hb, hbs⟩ := List.forall_mem_cons.1 h
    exact .add hb (ih hbs)

theorem imp (h : Widens P as bs) (hPQ : ∀ a, P a → Q a) : Widens Q as bs := by
  induction h with
  | nil => exact .nil
  | keep _ ih => exact .keep ih
  | add added _ ih => exact .add (hPQ _ added) ih

theorem append (h : Widens P as bs) (h' : Widens P cs ds) : Widens P (as ++ cs) (bs ++ ds) := by
  induction h with
  | nil => exact h'
  | keep _ ih => exact .keep ih
  | add added _ ih => exact .add added ih

theorem sublist (h : Widens P as bs) : as.Sublist bs := by
  induction h with
  | nil => exact .slnil
  | keep _ ih => exact .cons_cons _ ih
  | add _ _ ih => exact .cons _ ih

end Widens

namespace InstallRequest

variable {r r' : InstallRequest} {s : ApkSet} {v : Variant} {d : DeviceSpec}
  {few many : OrderedSet String}

/-! ## The paths of one module -/

/-- A module that is not to be installed has no path; any other has those of its APKs. -/
theorem setPaths?_cases {ps : List Path} (h : r.setPaths? s = .ok ps) :
    r.installs? s = .ok false ∧ ps = [] ∨
      r.installs? s = .ok true ∧ ∃ rows, s.apks.mapM r.apkPath? = .ok rows ∧ ps = rows.flatten := by
  rw [setPaths?] at h
  obtain ⟨b, hinstalls, h⟩ := Step.ok_of_bind h
  cases b with
  | false =>
    cases h
    exact .inl ⟨hinstalls, rfl⟩
  | true =>
    obtain ⟨rows, hrows, h⟩ := Step.ok_of_bind h
    cases h
    exact .inr ⟨hinstalls, rows, hrows, rfl⟩

/-- The path of an APK counts only where the APK matches. -/
theorem mem_of_apkPath? {a : Apk} {ps : List Path} (h : r.apkPath? a = .ok ps) {p : Path}
    (hp : p ∈ ps) : a.path = p ∧ r.device.matchesApk? a.targeting = .ok true := by
  rw [apkPath?] at h
  obtain ⟨b, hmatches, h⟩ := Step.ok_of_bind h
  cases b with
  | false =>
    cases h
    cases hp
  | true =>
    cases h
    exact ⟨(List.mem_singleton.1 hp).symm, hmatches⟩

/-- Every path of a module is that of a matching APK of the module. -/
theorem mem_of_setPaths? {ps : List Path} (h : r.setPaths? s = .ok ps) {p : Path} (hp : p ∈ ps) :
    ∃ a ∈ s.apks, a.path = p ∧ r.device.matchesApk? a.targeting = .ok true := by
  rcases setPaths?_cases h with ⟨-, rfl⟩ | ⟨-, rows, hrows, rfl⟩
  · cases hp
  · obtain ⟨row, hrow, hp⟩ := List.mem_flatten.1 hp
    obtain ⟨a, ha, hpath⟩ := (Step.mem_of_mapM hrows).1 hrow
    exact ⟨a, ha, mem_of_apkPath? hpath hp⟩

/-! ## Two requests -/

theorem installs?_of_mem (h : s.moduleName ∈ few) : installs? ⟨d, some few⟩ s = .ok true :=
  if_pos (decide_eq_true h)

/-- A module that is not among those asked for is installed as if none were asked for. -/
theorem installs?_of_not_mem (h : s.moduleName ∉ few) :
    installs? ⟨d, some few⟩ s = installs? ⟨d, none⟩ s :=
  if_neg (Bool.eq_false_iff.1 (decide_eq_false h))

/-- Two requests for one device agree on a module, unless it is asked for in the
second only and would not be installed otherwise. -/
theorem installs?_cases (hfew : ∀ name ∈ few, name ∈ many) {b b' : Bool}
    (h : installs? ⟨d, some few⟩ s = .ok b) (h' : installs? ⟨d, some many⟩ s = .ok b') :
    b' = b ∨ b = false ∧ s.moduleName ∈ many ∧ s.moduleName ∉ few := by
  by_cases hmany : s.moduleName ∈ many
  · cases h'.symm.trans (installs?_of_mem hmany)
    by_cases hmem : s.moduleName ∈ few
    · cases h.symm.trans (installs?_of_mem hmem)
      exact .inl rfl
    · cases b with
      | false => exact .inr ⟨rfl, hmany, hmem⟩
      | true => exact .inl rfl
  · rw [installs?_of_not_mem hmany] at h'
    rw [installs?_of_not_mem fun hmem => hmany (hfew _ hmem)] at h
    cases h.symm.trans h'
    exact .inl rfl

/-- The path is that of an APK of a module among these that is asked for in the second
request only. -/
def Added (sets : List ApkSet) (few many : OrderedSet String) (p : Path) : Prop :=
  ∃ s ∈ sets, s.moduleName ∈ many ∧ s.moduleName ∉ few ∧ ∃ a ∈ s.apks, a.path = p

theorem Added.mono {sets sets' : List ApkSet} (hsets : ∀ s ∈ sets, s ∈ sets') {p : Path}
    (h : Added sets few many p) : Added sets' few many p := by
  obtain ⟨s, hs, hadded⟩ := h
  exact ⟨s, hsets s hs, hadded⟩

/-- Asking for more modules leaves the paths of a module as they are, or adds them all. -/
theorem setPaths?_widens (hfew : ∀ name ∈ few, name ∈ many) {ps qs : List Path}
    (h : setPaths? ⟨d, some few⟩ s = .ok ps) (h' : setPaths? ⟨d, some many⟩ s = .ok qs) :
    Widens (Added [s] few many) ps qs := by
  rcases setPaths?_cases h with ⟨hno, rfl⟩ | ⟨hyes, rows, hrows, rfl⟩
  · rcases setPaths?_cases h' with ⟨-, rfl⟩ | ⟨hyes', -⟩
    · exact .nil
    · obtain ⟨-, hmany, hmem⟩ := (installs?_cases hfew hno hyes').resolve_left nofun
      refine .of_forall fun p hp => ?_
      obtain ⟨a, ha, hpath, -⟩ := mem_of_setPaths? h' hp
      exact ⟨s, List.mem_singleton_self s, hmany, hmem, a, ha, hpath⟩
  · rcases setPaths?_cases h' with ⟨hno', -⟩ | ⟨-, rows', hrows', rfl⟩
    · exact absurd (installs?_cases hfew hyes hno') (by simp)
    · -- The requests are for one device, so the same APKs match.
      cases hrows.symm.trans hrows'
      exact .refl _

/-! ## The paths of a variant -/

/-- What holds module by module holds of all modules together. -/
theorem mapM_setPaths?_widens (hfew : ∀ name ∈ few, name ∈ many) {sets : List ApkSet}
    {rows rows' : List (List Path)} (h : sets.mapM (setPaths? ⟨d, some few⟩) = .ok rows)
    (h' : sets.mapM (setPaths? ⟨d, some many⟩) = .ok rows') :
    Widens (Added sets few many) rows.flatten rows'.flatten := by
  induction sets generalizing rows rows' with
  | nil =>
    cases h
    cases h'
    exact .nil
  | cons s sets ih =>
    obtain ⟨ps, rest, hps, hrest, rfl⟩ := Step.mapM_cons_ok h
    obtain ⟨qs, rest', hqs, hrest', rfl⟩ := Step.mapM_cons_ok h'
    have hfirst : Widens (Added (s :: sets) few many) ps qs :=
      (setPaths?_widens hfew hps hqs).imp fun _ =>
        Added.mono (List.forall_mem_singleton.2 List.mem_cons_self)
    have hothers : Widens (Added (s :: sets) few many) rest.flatten rest'.flatten :=
      (ih hrest hrest').imp fun _ => Added.mono fun _ => List.mem_cons_of_mem s
    rw [List.flatten_cons, List.flatten_cons]
    exact hfirst.append hothers

/-- Every path of a variant is that of a matching APK of a module to be installed. -/
theorem mem_of_paths? {ps : List Path} (h : r.paths? v = .ok ps) {p : Path} (hp : p ∈ ps) :
    ∃ s ∈ v.sets, ∃ a ∈ s.apks, a.path = p ∧ r.device.matchesApk? a.targeting = .ok true := by
  obtain ⟨rows, hrows, rfl⟩ := Step.ok_of_map h
  obtain ⟨row, hrow, hp⟩ := List.mem_flatten.1 hp
  obtain ⟨s, hs, hset⟩ := (Step.mem_of_mapM hrows).1 hrow
  exact ⟨s, hs, mem_of_setPaths? hset hp⟩

/-- To ask for no module in particular is not to ask. -/
theorem paths?_empty (d : DeviceSpec) (v : Variant) :
    paths? ⟨d, some ∅⟩ v = paths? ⟨d, none⟩ v := by
  have hsets : setPaths? ⟨d, some ∅⟩ = setPaths? ⟨d, none⟩ := by
    funext s
    rw [setPaths?, setPaths?, installs?_of_not_mem List.not_mem_nil]
    rfl
  rw [paths?, paths?, hsets]

/-- Asking for more modules adds paths to those of a variant, and only paths of the
modules that were not asked for before.  Every path is that of an APK that matches.
To ask for no module in particular is not to ask. -/
theorem paths?_widens (d : DeviceSpec) (v : Variant) {few many : OrderedSet String}
    (hfew : ∀ name ∈ few, name ∈ many) :
    (∀ ps qs, paths? ⟨d, some few⟩ v = .ok ps → paths? ⟨d, some many⟩ v = .ok qs →
      ps.Sublist qs ∧ Widens (Added v.sets few many) ps qs ∧
        ∀ p ∈ qs, ∃ s ∈ v.sets, ∃ a ∈ s.apks,
          a.path = p ∧ d.matchesApk? a.targeting = .ok true) ∧
      paths? ⟨d, some ∅⟩ v = paths? ⟨d, none⟩ v := by
  refine ⟨fun ps qs h h' => ?_, paths?_empty d v⟩
  obtain ⟨rows, hrows, rfl⟩ := Step.ok_of_map h
  obtain ⟨rows', hrows', rfl⟩ := Step.ok_of_map h'
  have hwidens := mapM_setPaths?_widens hfew hrows hrows'
  exact ⟨hwidens.sublist, hwidens, fun p => mem_of_paths? h'⟩

/-- A module with one APK, which is for one ABI. -/
def abiSet (moduleName : String) (install : InitialInstall) (abi : Abi) (path : Path) : ApkSet where
  moduleName
  install
  targeting := { minSdk := some 31 }
  apks := [{ path, targeting := { abi := some { values := .ofList [abi] } } }]

/-- A variant with a module that comes with the app, one whose conditions do not hold on
an old device, and one that occurs twice. -/
def museumVariant : Variant where
  number := 1
  targeting := {}
  sets := [
    abiSet "maps" .never .x86 ⟨["maps-x86.apk"], by decide⟩,
    abiSet "base" .always .x86 ⟨["base-x86.apk"], by decide⟩,
    abiSet "maps" .never .arm64V8a ⟨["maps-arm.apk"], by decide⟩,
    abiSet "tour" .conditional .x86 ⟨["tour-x86.apk"], by decide⟩]

/-- A device that is too old for one of the modules. -/
def museumDevice : DeviceSpec := { abis := ["x86"], sdkVersion := 30 }

theorem paths?_widens_museumVariant :
    (∀ name ∈ OrderedSet.ofList ["base"], name ∈ OrderedSet.ofList ["base", "maps"]) ∧
      ∃ ps qs, paths? ⟨museumDevice, some (.ofList ["base"])⟩ museumVariant = .ok ps ∧
        paths? ⟨museumDevice, some (.ofList ["base", "maps"])⟩ museumVariant = .ok qs ∧
        ps.length = 1 ∧ qs.length = 2 ∧ ps.Sublist qs ∧
        Widens (Added museumVariant.sets (.ofList ["base"]) (.ofList ["base", "maps"])) ps qs := by
  have hfew : ∀ name ∈ OrderedSet.ofList ["base"], name ∈ OrderedSet.ofList ["base", "maps"] := by
    decide
  obtain ⟨hsublist, hwidens, -⟩ := (paths?_widens museumDevice museumVariant hfew).1 _ _ rfl rfl
  exact ⟨hfew, _, _, rfl, rfl, rfl, rfl, hsublist, hwidens⟩

end InstallRequest

end AppBundle
