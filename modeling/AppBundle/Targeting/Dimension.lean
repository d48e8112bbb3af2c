import AppBundle.Targeting.Abi
import AppBundle.Targeting.DeviceSpec
import AppBundle.Targeting.Matcher
import AppBundle.Targeting.TextureFormat
import AppBundle.Text.Cut
import AppBundle.Text.Letter

/-!
# Dimensions

One matcher for each dimension along which artifacts differ.

* Along ABIs, densities, SDK versions and texture formats, one of all targeted
  values suits the device best, and the artifact that covers it serves the
  device.
* Along languages, country sets and device groups, an artifact serves the
  devices with a value that it covers, and the fallback the ones with no value
  that a sibling covers.
-/

namespace AppBundle

open Text

/-- Whether the artifact covers the value that suits best, if any does. -/
def Targeting.covers {α : Type} [LT α] [DecidableEq α] (t : Targeting α) : Option α → Bool
  | some best => decide (best ∈ t.values)
  | none => false

/-- Whether the artifact serves a device with these values: it covers one of
them, or it is the fallback and no sibling covers one of them. -/
def Targeting.meets {α : Type} [LT α] [DecidableEq α] (t : Targeting α) (device : List α) : Bool :=
  if t.values.isEmpty then device.all fun a => decide (a ∉ t.alternatives)
  else device.any fun a => decide (a ∈ t.values)

namespace DeviceSpec

/-! ## The value that suits best -/

/-- The known ABIs of a device, in order of preference. -/
def knownAbis (d : DeviceSpec) : List Abi := d.abis.filterMap Abi.named?

/-- The first ABI of the device that is targeted suits best. -/
def abiMatcher (d : DeviceSpec) : Matcher Abi where
  dimension := "ABI"
  isPresent := !d.knownAbis.isEmpty
  whenPresent t := t.covers (d.knownAbis.find? t.contains)
  mismatch? t :=
    if d.knownAbis.any t.contains then none else some (.abi (listing d.knownAbis) (listing t.all))

/-- The lowest density that is not below that of the device suits best, or else the highest. -/
def densityMatcher (d : DeviceSpec) : Matcher UInt32 where
  dimension := "screen density"
  isPresent := 0 < d.density
  whenPresent t := t.covers ((t.all.filter (d.density ≤ ·)).min?.or t.all.max?)

/-- The highest SDK version that is not above that of the device suits best. -/
def sdkMatcher (d : DeviceSpec) : Matcher Int32 where
  dimension := "SDK version"
  isPresent := 0 < d.sdkVersion
  whenPresent t := t.covers (t.all.filter (· ≤ d.sdkVersion)).max?
  mismatch? t :=
    if t.all.any (· ≤ d.sdkVersion) then none
    else some (.sdkVersion (listing t.all) d.sdkVersion)

/-- The supported format with the highest priority suits best.  A device that
supports none of the targeted formats is left to the fallback. -/
def textureMatcher (d : DeviceSpec) : Matcher TextureFormat where
  dimension := "texture compression format"
  isPresent := !d.glExtensions.isEmpty
  whenPresent t :=
    let supported := TextureFormat.supported d.glExtensions
    match (t.all.filter (· ∈ supported)).maxOn? TextureFormat.priority with
    | some best => t.covers (some best)
    | none => t.values.isEmpty

/-! ## The values that are covered -/

/-- The language of a locale, if it has one. -/
def languageOf? (locale : String) : Option String :=
  match (cutAt (fun c => c == '-' || c == '_') locale.toList).1 with
  | [] => none
  | language => some (lower (String.ofList language))

/-- The languages of a device. -/
def languages (d : DeviceSpec) : List String := d.locales.filterMap languageOf?

/-- Languages are compared in lower case and without the region. -/
def languageMatcher (d : DeviceSpec) : Matcher String where
  dimension := "language"
  isPresent := !d.languages.isEmpty
  whenPresent t := t.meets d.languages

end DeviceSpec

/-- A device without a country set is left to the fallback. -/
def countrySetMatcher (countrySet : Option String) : Matcher String where
  dimension := "country set"
  isPresent := countrySet.isSome
  whenPresent t :=
    match countrySet with
    | some c => t.meets [c]
    | none => t.values.isEmpty
  whenAbsent t := t.values.isEmpty
  mismatch? t :=
    if t.values.isEmpty then none
    else countrySet.bind fun c =>
      if t.contains c then none else some (.countrySet c (listing t.all))

/-- A device without groups is left to the fallback. -/
def DeviceSpec.groupMatcher (d : DeviceSpec) : Matcher String where
  dimension := "device group"
  isPresent := !d.groups.isEmpty
  whenPresent t := t.meets d.groups
  whenAbsent t := t.values.isEmpty
  mismatch? t :=
    if d.groups.any t.contains then none
    else some (.deviceGroups (listing (OrderedSet.ofList d.groups).toList) (listing t.all))

end AppBundle
