import AppBundle.Ordered.Set

/-!
# Install conditions

A module can ask for conditions under which it is installed with the app: a
range of SDK versions, features of the device, the country of the user, and
groups that the device belongs to.  `ModuleTargeting` gathers them.
-/

namespace AppBundle

/-- Whether a module comes with the app. -/
inductive InitialInstall where
  /-- It always does. -/
  | always
  /-- It does when its conditions hold. -/
  | conditional
  /-- It does not. -/
  | never
deriving DecidableEq, Repr

/-- A feature that the device must have. -/
structure DeviceFeature where
  /-- The name of the feature. -/
  name : String
  /-- The lowest version of the feature. -/
  version : Option Int32
deriving DecidableEq, Repr

/-- The countries that the user must be in, or must not be in. -/
structure UserCountries where
  /-- The codes of the countries. -/
  codes : List String
  /-- Whether the countries are left out. -/
  exclude : Bool
deriving DecidableEq, Repr

/-- The conditions of a module. -/
structure ModuleTargeting where
  /-- The lowest SDK version. -/
  minSdk : Option Int32 := none
  /-- The highest SDK version. -/
  maxSdk : Option Int32 := none
  /-- The features of the device. -/
  features : List DeviceFeature := []
  /-- The countries of the user. -/
  countries : Option UserCountries := none
  /-- The groups of which the device must be in one; none are no condition. -/
  groups : OrderedSet String := ∅
deriving DecidableEq

/-- Whether there are no conditions. -/
def ModuleTargeting.isEmpty (t : ModuleTargeting) : Bool := t = {}

end AppBundle
