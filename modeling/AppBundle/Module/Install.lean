import AppBundle.Module.Basic

/-!
# How a module is installed

What a manifest says about delivery, taken together with the settings of the
bundle.  The base module always comes with the app.  Any other module comes
with the app, comes with it under conditions, or does not come with it; a
manifest without a delivery element says so in an older way.
-/

namespace AppBundle.Module

/-- Whether the module is the base of an app. -/
def isBase (m : Module) : Bool := !m.context.isAssetOnly && m.name == "base"

/-- The delivery that the manifest declares, if it does. -/
def delivery? (m : Module) : Except BundleError (Option Delivery) :=
  m.manifest.delivery? m.context.fastFollowEnabled

/-- Whether a module with this delivery comes with the app. -/
def installOf (d : Delivery) : InitialInstall :=
  if d.hasConditions then .conditional
  else if d.hasInstallTime then .always
  else .never

/-- Whether the module comes with the app. -/
def install? (m : Module) : Except BundleError InitialInstall := do
  if m.isBase then return .always
  match ← m.delivery? with
  | some d =>
    if d.hasMode then return installOf d
    else throw (.invalidBundle (.noDeliveryMode m.name))
  | none => return if (← m.manifest.onDemand?) = some true then .never else .always

/-- The conditions under which the module comes with the app.  Where they give no
lowest SDK version, that of the manifest stands in. -/
def targeting? (m : Module) : Except BundleError ModuleTargeting := do
  match ← m.delivery? with
  | none => return {}
  | some d =>
    if d.hasConditions then
      let t ← d.targeting?
      match t.minSdk with
      | some _ => return t
      | none => return { t with minSdk := ← m.manifest.minSdk? }
    else return {}

/-! ## Metadata -/

/-- An SDK that a module depends on. -/
structure SdkDependency where
  /-- The name of its package. -/
  packageName : String
  /-- The first number of its version. -/
  major : Int32
  /-- The second number of its version. -/
  minor : Int32
deriving DecidableEq, Repr

/-- What is known of a module from its manifest and configurations. -/
structure Metadata where
  /-- The name of the module. -/
  name : String
  /-- The kind of the module. -/
  type : ModuleType
  /-- Whether the module comes with the app. -/
  install : InitialInstall
  /-- Whether the module runs without being installed. -/
  isInstant : Bool
  /-- The modules that the module uses. -/
  dependencies : List String
  /-- The conditions of the module. -/
  targeting : ModuleTargeting
  /-- The SDKs that the module depends on. -/
  sdks : List SdkDependency
deriving DecidableEq

/-- The SDKs that the module depends on. -/
def sdkDependencies (m : Module) : List SdkDependency :=
  match m.configs.sdk with
  | some c =>
    c.sdks.map fun s => { packageName := s.packageName, major := s.major, minor := s.minor }
  | none => []

/-- What is known of the module.  SDKs are listed only for a variant that runs them. -/
def metadata? (m : Module) (runsSdks : Bool) : Except BundleError Metadata := do
  return {
    name := m.name
    type := ← m.manifest.type?
    install := ← m.install?
    isInstant := ← m.manifest.isInstant?
    dependencies := (← m.manifest.usesSplits?).toList
    targeting := ← m.targeting?
    sdks := if runsSdks then m.sdkDependencies else [] }

end AppBundle.Module
