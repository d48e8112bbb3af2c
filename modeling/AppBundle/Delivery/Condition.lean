import AppBundle.Delivery.Schema
import AppBundle.Targeting.Conditions
import AppBundle.Text.Letter

/-!
# Conditions in a manifest

The children of a conditions element are the conditions of a module.

    conditions     := min-sdk? max-sdk? device-feature* user-countries? device-groups?
    user-countries := country*
    device-groups  := device-group+

`Condition.ofElement?` reads one of them, in any order, and
`ModuleConditions.ofElement?` gathers them all.  Each may stand once, features aside.
The lowest SDK version must not lie above the highest.

What is gathered keeps a place for each kind, filled or not.  A group condition
names at least one group (`DeviceGroups`).  What the conditions ask of a device is
said by `ModuleConditions.toTargeting`, which leaves nothing out.
-/

namespace AppBundle.Delivery

open Xml

/-- The groups of a group condition. -/
@[ext] structure DeviceGroups where
  /-- The names of the groups. -/
  names : OrderedSet String
  /-- There is at least one. -/
  nonempty : names.isEmpty = false
deriving DecidableEq

/-- One condition. -/
inductive Condition where
  /-- The lowest SDK version. -/
  | minSdk (version : Int32)
  /-- The highest SDK version. -/
  | maxSdk (version : Int32)
  /-- A feature of the device. -/
  | feature (f : DeviceFeature)
  /-- The countries of the user. -/
  | countries (c : UserCountries)
  /-- The groups of the device. -/
  | groups (g : DeviceGroups)

namespace Condition

/-- The kinds of conditions. -/
inductive Kind where
  /-- The lowest SDK version. -/
  | minSdk
  /-- The highest SDK version. -/
  | maxSdk
  /-- A feature of the device. -/
  | feature
  /-- The countries of the user. -/
  | countries
  /-- The groups of the device. -/
  | groups
deriving DecidableEq

/-- The elements of the kinds. -/
def kinds : List (String × Kind) := [
  ("min-sdk", .minSdk),
  ("max-sdk", .maxSdk),
  ("device-feature", .feature),
  ("user-countries", .countries),
  ("device-groups", .groups)]

/-- Reads the version of an SDK condition. -/
def version? (e : Element) : Except BundleError Int32 := do
  integer? e (← required? e "value")

/-- Reads a feature condition. -/
def feature? (e : Element) : Except BundleError DeviceFeature := do
  let name ← (← required? e "name").text?
  match ← optional? e "version" with
  | some a => return { name, version := some (← integer? e a) }
  | none => return { name, version := none }

/-- Reads a country of a country condition. -/
def country? (e : Element) : Except BundleError String := do
  classify "user-countries" [("country", ())] e
  let code ← (← required? e "code").text?
  return Text.upper code

/-- Reads a country condition. -/
def countries? (e : Element) : Except BundleError UserCountries := do
  let exclude ← match ← optional? e "exclude" with
    | some a => boolean? e a
    | none => pure false
  let codes ← e.childElements.mapM country?
  return { codes, exclude }

/-- Reads a group of a group condition. -/
def group? (e : Element) : Except BundleError String := do
  classify "device-groups" [("device-group", ())] e
  let name ← (← required? e "name").text?
  if isIdentifier name then return name
  else throw (.invalidBundle (.deviceGroupName name))

/-- Reads a group condition, which names at least one group. -/
def groups? (e : Element) : Except BundleError DeviceGroups := do
  let names := OrderedSet.ofList (← e.childElements.mapM group?)
  if h : names.isEmpty then throw (.invalidBundle .noDeviceGroup)
  else return { names, nonempty := Bool.eq_false_iff.2 h }

/-- Reads a condition. -/
def ofElement? (e : Element) : Except BundleError Condition := do
  match ← classify "conditions" kinds e with
  | .minSdk => return minSdk (← version? e)
  | .maxSdk => return maxSdk (← version? e)
  | .feature => return feature (← feature? e)
  | .countries => return countries (← countries? e)
  | .groups => return groups (← groups? e)

end Condition

/-! ## All conditions -/

/-- The conditions of a module, with a place for each kind. -/
structure ModuleConditions where
  /-- The lowest SDK version. -/
  minSdk : Option Int32 := none
  /-- The highest SDK version. -/
  maxSdk : Option Int32 := none
  /-- The features of the device. -/
  features : List DeviceFeature := []
  /-- The countries of the user. -/
  countries : Option UserCountries := none
  /-- The groups of the device. -/
  groups : Option DeviceGroups := none
deriving DecidableEq

/-- Fills a place, which must be free. -/
def once {α : Type} (place : Option α) (element : String) (a : α) :
    Except BundleError (Option α) :=
  match place with
  | some _ => .error (.invalidBundle (.repeatedCondition element))
  | none => .ok (some a)

namespace ModuleConditions

/-- The conditions with one more. -/
def add (m : ModuleConditions) : Condition → Except BundleError ModuleConditions
  | .minSdk version => (once m.minSdk "min-sdk" version).map ({ m with minSdk := · })
  | .maxSdk version => (once m.maxSdk "max-sdk" version).map ({ m with maxSdk := · })
  | .feature f => .ok { m with features := m.features ++ [f] }
  | .countries c => (once m.countries "user-countries" c).map ({ m with countries := · })
  | .groups g => (once m.groups "device-groups" g).map ({ m with groups := · })

/-- The conditions with the one that an element states. -/
def addElement (m : ModuleConditions) (child : Element) : Except BundleError ModuleConditions := do
  m.add (← Condition.ofElement? child)

/-- Checks that the range of SDK versions is not upside down. -/
def checkSdkRange (m : ModuleConditions) : Except BundleError Unit :=
  match m.minSdk, m.maxSdk with
  | some low, some high =>
    if high < low then .error (.invalidBundle (.sdkRange low high)) else .ok ()
  | _, _ => .ok ()

/-- The conditions that a conditions element lists. -/
def ofElement? (e : Element) : Except BundleError ModuleConditions := do
  let m ← e.childElements.foldlM addElement {}
  m.checkSdkRange
  return m

/-- What the conditions ask of a device.  No group condition asks for no groups. -/
def toTargeting (m : ModuleConditions) : ModuleTargeting where
  minSdk := m.minSdk
  maxSdk := m.maxSdk
  features := m.features
  countries := m.countries
  groups := (m.groups.map (·.names)).getD ∅

end ModuleConditions

end AppBundle.Delivery
