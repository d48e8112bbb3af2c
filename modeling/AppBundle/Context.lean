import AppBundle.Error
import AppBundle.Json.Value
import AppBundle.Version

/-!
# Bundle contexts

What holds for a whole bundle and not for one module: the kind of bundle, the
version of the tool that built it, and whether fast-follow delivery is enabled.
Where the last is not said, the version decides.
-/

namespace AppBundle

/-- The kinds of bundles. -/
inductive BundleType where
  /-- An app. -/
  | regular
  /-- Asset packs without an app. -/
  | assetOnly
deriving DecidableEq, Repr

/-- The settings of a bundle. -/
structure Context where
  /-- The kind of bundle. -/
  bundleType : BundleType := .regular
  /-- The version of the tool that built it. -/
  version : Version := { major := 1, minor := 15, patch := 6 }
  /-- Whether fast-follow delivery is enabled, if that is said. -/
  fastFollow : Option Bool := none
deriving DecidableEq, Repr

namespace Context

/-- Whether fast-follow delivery is enabled.  Tools know it from version 0.13.0 on. -/
def fastFollowEnabled (c : Context) : Bool := c.fastFollow.getD (c.version.isAtLeast 0 13 0)

/-- Whether the bundle has no app. -/
def isAssetOnly (c : Context) : Bool := c.bundleType == .assetOnly

/-! ## Reading -/

open Json

/-- The kind of bundle with a name. -/
def bundleTypeNamed? (name : String) : Option BundleType :=
  [("Regular", .regular), ("AssetOnly", .assetOnly)].lookup name

/-- The kind of bundle: its name, or an object with the name for a key and nothing for a value. -/
def bundleType? : Value → Option BundleType
  | .string (some name) => bundleTypeNamed? name
  | .object [(some name, .null)] => bundleTypeNamed? name
  | _ => none

/-- The settings that a value describes. -/
def ofValue? (v : Value) : Option Context := do
  let fields ← v.record? ["bundleType", "bundletoolVersion", "fastFollowEnabled"]
  return {
    bundleType := ← Value.field? fields "bundleType" bundleType? (some .regular)
    version :=
      ← Value.field? fields "bundletoolVersion" (fun v => v.text?.bind Version.ofText?) none
    fastFollow :=
      ← Value.field? fields "fastFollowEnabled" (Value.optional? Value.boolean?) (some none) }

/-- The settings in a JSON text. -/
def ofJson? (text : String) : Except BundleError Context :=
  match (Value.parse? text).bind ofValue? with
  | some c => .ok c
  | none => .error (.decode none .json)

end Context

end AppBundle
