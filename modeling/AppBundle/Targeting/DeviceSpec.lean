import AppBundle.Error
import AppBundle.Json.Layout
import AppBundle.Json.Value

/-!
# Device specifications

What is known of a device.  A screen density or an SDK version of zero is not
known, and so is anything that an empty list or a missing value stands for.

A specification is kept as a JSON text.  Fields that are missing there are not
known.
-/

namespace AppBundle

/-- A device, as far as it is known. -/
structure DeviceSpec where
  /-- The names of the ABIs, in order of preference. -/
  abis : List String := []
  /-- The locales, such as `en-US`. -/
  locales : List String := []
  /-- The screen density in dots per inch. -/
  density : UInt32 := 0
  /-- The SDK version. -/
  sdkVersion : Int32 := 0
  /-- The extensions of the graphics library. -/
  glExtensions : List String := []
  /-- The features, each perhaps with its version after an equals sign. -/
  features : List String := []
  /-- The country set. -/
  countrySet : Option String := none
  /-- The groups that the device belongs to. -/
  groups : List String := []
deriving DecidableEq, Repr

namespace DeviceSpec

open Json

/-! ## Reading -/

/-- The keys of the fields, in order. -/
def keys : List String := [
  "supportedAbis", "supportedLocales", "screenDensity", "sdkVersion", "glExtensions",
  "deviceFeatures", "countrySet", "deviceGroups"]

/-- The device that a value describes. -/
def ofValue? (v : Value) : Option DeviceSpec := do
  let fields ← v.record? keys
  let texts (key : String) : Option (List String) := Value.field? fields key Value.texts? (some [])
  return {
    abis := ← texts "supportedAbis"
    locales := ← texts "supportedLocales"
    density := ← Value.field? fields "screenDensity" Value.word? (some 0)
    sdkVersion := ← Value.field? fields "sdkVersion" Value.signed? (some 0)
    glExtensions := ← texts "glExtensions"
    features := ← texts "deviceFeatures"
    countrySet := ← Value.field? fields "countrySet" (Value.optional? Value.text?) (some none)
    groups := ← texts "deviceGroups" }

/-- The device in a JSON text. -/
def ofJson? (text : String) : Except BundleError DeviceSpec :=
  match (Value.parse? text).bind ofValue? with
  | some d => .ok d
  | none => .error (.decode none .json)

/-! ## Writing -/

/-- The JSON text of a device. -/
def toJson (d : DeviceSpec) : String :=
  let texts (l : List String) : String := layoutList (l.map quote)
  layoutRecord [
    ("supportedAbis", texts d.abis),
    ("supportedLocales", texts d.locales),
    ("screenDensity", Text.decimal d.density.toNat),
    ("sdkVersion", Text.signedDecimal d.sdkVersion.toInt),
    ("glExtensions", texts d.glExtensions),
    ("deviceFeatures", texts d.features),
    ("countrySet", (d.countrySet.map quote).getD "null"),
    ("deviceGroups", texts d.groups)]

end DeviceSpec

end AppBundle
