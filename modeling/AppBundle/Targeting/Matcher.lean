import AppBundle.Targeting.Basic

/-!
# Matchers

A matcher holds what a device says about one dimension and answers two
questions about a targeting: does the artifact serve the device, and can the
device be served by any artifact at all?

Both ask first whether the targeting is sound.  An empty targeting serves every
device.  After that a matcher answers for itself, in one way for a device that
has a value along the dimension and in another for one that has none.
-/

namespace AppBundle

open Text

/-- What decides about the targetings along one dimension. -/
structure Matcher (α : Type) [LT α] where
  /-- The name of the dimension. -/
  dimension : String
  /-- Whether the device has a value. -/
  isPresent : Bool
  /-- Whether an artifact serves a device that has a value. -/
  whenPresent : Targeting α → Bool
  /-- Whether an artifact serves a device that has no value. -/
  whenAbsent : Targeting α → Bool := fun _ => true
  /-- Why no artifact can serve a device that has a value, if so. -/
  mismatch? : Targeting α → Option Mismatch := fun _ => none

namespace Matcher

variable {α : Type} [LT α]

/-- Fails when no artifact can serve a device that has a value. -/
def checkPresent (m : Matcher α) (t : Targeting α) : Except BundleError Unit :=
  match m.mismatch? t with
  | some mismatch => .error (.incompatibleDevice mismatch)
  | none => .ok ()

variable [DecidableEq α] [Display α]

/-- Whether the artifact serves the device. -/
def matches? (m : Matcher α) (t : Targeting α) : Except BundleError Bool := do
  t.checkDisjoint m.dimension
  if t.isEmpty then return true
  else if m.isPresent then return m.whenPresent t
  else return m.whenAbsent t

/-- Whether an artifact that may have no targeting serves the device. -/
def matchesOptional? (m : Matcher α) : Option (Targeting α) → Except BundleError Bool
  | some t => m.matches? t
  | none => .ok true

/-- Fails when no artifact can serve the device. -/
def check (m : Matcher α) (t : Targeting α) : Except BundleError Unit := do
  t.checkDisjoint m.dimension
  if t.isEmpty || !m.isPresent then return () else m.checkPresent t

/-- Fails when there is a targeting and no artifact can serve the device. -/
def checkOptional (m : Matcher α) : Option (Targeting α) → Except BundleError Unit
  | some t => m.check t
  | none => .ok ()

end Matcher

end AppBundle
