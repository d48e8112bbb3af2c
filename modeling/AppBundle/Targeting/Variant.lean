import AppBundle.Path
import AppBundle.Targeting.Feature

/-!
# Variants and their APKs

An app is generated in variants, each for a family of devices, and a variant
has APKs for every module.  To install an app is to choose the variant with the
highest number that matches the device, and from it the matching APKs of the
modules that are to be installed: those that always come with the app, those
whose conditions hold, and those that are asked for.
-/

namespace AppBundle

/-- The targeting of an APK.  A dimension without targeting serves every device. -/
structure ApkTargeting where
  /-- The ABIs. -/
  abi : Option (Targeting Abi) := none
  /-- The screen densities. -/
  density : Option (Targeting UInt32) := none
  /-- The languages. -/
  language : Option (Targeting String) := none
  /-- The lowest SDK versions. -/
  sdk : Option (Targeting Int32) := none
  /-- The texture compression formats. -/
  texture : Option (Targeting TextureFormat) := none
  /-- The country sets. -/
  countrySet : Option (Targeting String) := none
deriving DecidableEq

/-- The targeting of a variant. -/
structure VariantTargeting where
  /-- The lowest SDK versions. -/
  sdk : Option (Targeting Int32) := none
  /-- The ABIs. -/
  abi : Option (Targeting Abi) := none
  /-- The screen densities. -/
  density : Option (Targeting UInt32) := none
  /-- The texture compression formats. -/
  texture : Option (Targeting TextureFormat) := none
deriving DecidableEq

/-- The name of the value that an artifact covers along a dimension, if there is one. -/
def Targeting.name? {α : Type} [LT α] [Text.Display α] (dimension : String) :
    Option (Targeting α) → Except BundleError (Option String)
  | some t => (t.single? dimension).map (·.map Text.display)
  | none => .ok none

/-- An APK. -/
structure Apk where
  /-- Where it is kept. -/
  path : Path
  /-- The devices that it is for. -/
  targeting : ApkTargeting
deriving DecidableEq

/-- The APKs of a module. -/
structure ApkSet where
  /-- The name of the module. -/
  moduleName : String
  /-- Whether the module comes with the app. -/
  install : InitialInstall
  /-- The conditions of the module. -/
  targeting : ModuleTargeting
  /-- The APKs. -/
  apks : List Apk
deriving DecidableEq

/-- The APKs for a family of devices. -/
structure Variant where
  /-- The number of the variant. -/
  number : UInt32
  /-- The devices that it is for. -/
  targeting : VariantTargeting
  /-- The APKs, module by module. -/
  sets : List ApkSet
deriving DecidableEq

namespace DeviceSpec

/-! ## Matching -/

/-- Whether an APK serves the device.  Dimensions after one that does not match are not
looked at. -/
def matchesApk? (d : DeviceSpec) (t : ApkTargeting) : Except BundleError Bool :=
  d.abiMatcher.matchesOptional? t.abi <&&> d.densityMatcher.matchesOptional? t.density <&&>
    d.languageMatcher.matchesOptional? t.language <&&> d.sdkMatcher.matchesOptional? t.sdk <&&>
    d.textureMatcher.matchesOptional? t.texture <&&>
    (countrySetMatcher d.countrySet).matchesOptional? t.countrySet

/-- Fails when no APK of the kind can serve the device. -/
def checkApk (d : DeviceSpec) (t : ApkTargeting) : Except BundleError Unit := do
  d.abiMatcher.checkOptional t.abi
  d.densityMatcher.checkOptional t.density
  d.languageMatcher.checkOptional t.language
  d.sdkMatcher.checkOptional t.sdk
  d.textureMatcher.checkOptional t.texture
  (countrySetMatcher d.countrySet).checkOptional t.countrySet

/-- Whether a variant serves the device.  Dimensions after one that does not match are not looked
at. -/
def matchesVariant? (d : DeviceSpec) (t : VariantTargeting) : Except BundleError Bool :=
  d.sdkMatcher.matchesOptional? t.sdk <&&> d.abiMatcher.matchesOptional? t.abi <&&>
    d.densityMatcher.matchesOptional? t.density <&&> d.textureMatcher.matchesOptional? t.texture

end DeviceSpec

/-! ## Choosing -/

/-- A wish to install an app on a device. -/
structure InstallRequest where
  /-- The device. -/
  device : DeviceSpec
  /-- The modules that are asked for, if any are. -/
  modules : Option (OrderedSet String) := none

namespace InstallRequest

/-- The better of the best variant so far and another one. -/
def better? (r : InstallRequest) (best : Option Variant) (v : Variant) :
    Except BundleError (Option Variant) := do
  if ← r.device.matchesVariant? v.targeting then
    return if best.all (·.number < v.number) then some v else best
  else return best

/-- The variant with the highest number that matches, the first of them. -/
def variant? (r : InstallRequest) (vs : List Variant) : Except BundleError (Option Variant) :=
  vs.foldlM r.better? none

/-- Whether a module is asked for. -/
def requests (r : InstallRequest) (name : String) : Bool :=
  r.modules.any fun names => decide (name ∈ names)

/-- Whether a module is to be installed. -/
def installs? (r : InstallRequest) (s : ApkSet) : Except BundleError Bool :=
  if r.requests s.moduleName then .ok true
  else match s.install with
    | .always => .ok true
    | .conditional => r.device.satisfies? s.targeting
    | .never => .ok false

/-- The path of an APK, if it matches. -/
def apkPath? (r : InstallRequest) (a : Apk) : Except BundleError (List Path) := do
  if ← r.device.matchesApk? a.targeting then return [a.path] else return []

/-- The paths of the matching APKs of a module, if it is to be installed. -/
def setPaths? (r : InstallRequest) (s : ApkSet) : Except BundleError (List Path) := do
  if ← r.installs? s then return (← s.apks.mapM r.apkPath?).flatten else return []

/-- The paths of the matching APKs of a variant. -/
def paths? (r : InstallRequest) (v : Variant) : Except BundleError (List Path) :=
  List.flatten <$> v.sets.mapM r.setPaths?

/-- The paths of the matching APKs of the chosen variant. -/
def apks? (r : InstallRequest) (vs : List Variant) : Except BundleError (List Path) := do
  match ← r.variant? vs with
  | some v => r.paths? v
  | none => throw (.incompatibleDevice .noVariant)

end InstallRequest

end AppBundle
