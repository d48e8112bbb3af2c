import AppBundle.Delivery.Condition

/-!
# Delivery of a module

The delivery element of a manifest says how its module reaches the device: with
the app, on demand, or soon after the app.

    delivery     := install-time | on-demand | fast-follow
    install-time := conditions | removable

An element may have several children, in any order and any number; the first of
a kind counts.  `Delivery.ofElement?` checks the structure.  What conditions
say is read only when they are asked for.  Fast-follow delivery is known only
where it is enabled.
-/

namespace AppBundle

open Xml

/-- A delivery element with a valid structure. -/
structure Delivery where
  /-- The element. -/
  element : Element
  /-- Whether fast-follow delivery is enabled. -/
  fastFollow : Bool

namespace Delivery

/-- The modes of delivery. -/
inductive Mode where
  /-- With the app. -/
  | installTime
  /-- When it is asked for. -/
  | onDemand
  /-- Soon after the app. -/
  | fastFollow
deriving DecidableEq

/-- The elements of the modes. -/
def modes (fastFollow : Bool) : List (String × Mode) :=
  [("install-time", .installTime), ("on-demand", .onDemand)] ++
    if fastFollow then [("fast-follow", .fastFollow)] else []

/-- The elements that may stand in an install-time element. -/
def installTimeKinds : List (String × Unit) := [("conditions", ()), ("removable", ())]

/-- Checks an element that declares a mode. -/
def checkMode (fastFollow : Bool) (e : Element) : Except BundleError Unit := do
  match ← classify "delivery" (modes fastFollow) e with
  | .installTime => e.childElements.forM (classify "install-time" installTimeKinds)
  | .onDemand => expectNoChildren e
  | .fastFollow => expectNoChildren e

/-- The delivery that an element declares. -/
def ofElement? (fastFollow : Bool) (e : Element) : Except BundleError Delivery := do
  e.childElements.forM (checkMode fastFollow)
  return { element := e, fastFollow }

/-- The delivery that a manifest declares, if it does. -/
def ofManifest? (fastFollow : Bool) (root : Element) : Except BundleError (Option Delivery) :=
  let element := (root.childNamed? distributionUri "module").bind
    (·.childNamed? distributionUri "delivery")
  match element with
  | some e => (ofElement? fastFollow e).map some
  | none => .ok none

/-! ## Modes -/

/-- The first element of a mode. -/
def mode? (d : Delivery) (name : String) : Option Element :=
  d.element.childNamed? distributionUri name

/-- Whether the module can come with the app. -/
def hasInstallTime (d : Delivery) : Bool := (d.mode? "install-time").isSome

/-- Whether the module can come on demand. -/
def hasOnDemand (d : Delivery) : Bool := (d.mode? "on-demand").isSome

/-- Whether the module can come soon after the app. -/
def hasFastFollow (d : Delivery) : Bool := d.fastFollow && (d.mode? "fast-follow").isSome

/-- Whether there is a mode at all. -/
def hasMode (d : Delivery) : Bool := d.hasInstallTime || d.hasOnDemand || d.hasFastFollow

/-! ## Delivery with the app -/

/-- A child of the first install-time element. -/
def installTimeChild? (d : Delivery) (name : String) : Option Element :=
  (d.mode? "install-time").bind (·.childNamed? distributionUri name)

/-- Whether the module comes with the app under conditions. -/
def hasConditions (d : Delivery) : Bool := (d.installTimeChild? "conditions").isSome

/-- Whether a module that came with the app can be removed, if the manifest says. -/
def removable? (d : Delivery) : Except BundleError (Option Bool) :=
  match d.installTimeChild? "removable" with
  | none => .ok none
  | some e => do return some (← boolean? e (← required? e "value"))

/-- The conditions under which the module comes with the app. -/
def conditions? (d : Delivery) : Except BundleError ModuleConditions :=
  match d.installTimeChild? "conditions" with
  | none => .ok {}
  | some e => ModuleConditions.ofElement? e

/-- What these conditions ask of a device. -/
def targeting? (d : Delivery) : Except BundleError ModuleTargeting :=
  d.conditions?.map (·.toTargeting)

end Delivery

end AppBundle
