import AppBundle.Targeting.Conditions
import AppBundle.Targeting.Dimension
import AppBundle.Text.Blank

/-!
# Install conditions on a device

A module can ask for features, perhaps in a version.  A device lists its
features, each perhaps with a version behind an equals sign; of two entries
with one name the last one counts.  A version is a number in decimal or, after
`0x`, in hexadecimal; anything else is no version.

The countries of the user are not checked, because a device does not tell them.
-/

namespace AppBundle

open Text

namespace DeviceSpec

/-! ## Features -/

/-- The number with 64 bits and a sign that a text writes. -/
def featureVersion? (text : List Char) : Option Int :=
  let number := match trimBy isBlank text with
    | '0' :: 'x' :: digits => integer? 16 digits
    | '0' :: 'X' :: digits => integer? 16 digits
    | digits => integer? 10 digits
  number.filter fun n => Int64.minValue.toInt ≤ n ∧ n ≤ Int64.maxValue.toInt

/-- The name and the version of a listed feature. -/
def featureOf (listed : String) : String × Option Int :=
  let (name, version) := cutAt (· == '=') listed.toList
  (String.ofList name, version.bind featureVersion?)

/-- The feature of a name and its version, if the device has it. -/
def feature? (d : DeviceSpec) (name : String) : Option (Option Int) :=
  (d.features.reverse.map featureOf).lookup name

/-- Whether the device has a feature. -/
def hasFeature (d : DeviceSpec) (f : DeviceFeature) : Bool :=
  match d.feature? f.name, f.version with
  | none, _ => false
  | some _, none => true
  | some none, some _ => false
  | some (some available), some required => required.toInt ≤ available

/-! ## All conditions -/

/-- Whether the SDK version of the device, if known, lies in the range. -/
def inSdkRange (d : DeviceSpec) (t : ModuleTargeting) : Bool :=
  d.sdkVersion ≤ 0 ||
    t.minSdk.all (· ≤ d.sdkVersion) && t.maxSdk.all (d.sdkVersion ≤ ·)

/-- Whether the conditions of a module hold on the device. -/
def satisfies? (d : DeviceSpec) (t : ModuleTargeting) : Except BundleError Bool :=
  if !d.inSdkRange t then .ok false
  else if !t.features.all d.hasFeature then .ok false
  else if t.groups.isEmpty then .ok true
  else d.groupMatcher.matches? { values := t.groups }

end DeviceSpec

end AppBundle
