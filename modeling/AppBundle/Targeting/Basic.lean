import AppBundle.Error
import AppBundle.Ordered.Set
import AppBundle.Text.Display

/-!
# Targeting along one dimension

The artifacts of an app differ along dimensions such as ABI or screen density.
Along one of them an artifact covers some values, and its siblings cover
others, the alternatives.  No value may be on both sides.

An artifact that covers no value but has alternatives is the fallback: it is
for the devices that no sibling serves.  Without alternatives as well it is for
every device.
-/

namespace AppBundle

open Text

/-- What an artifact and its siblings cover along one dimension. -/
structure Targeting (α : Type) [LT α] where
  /-- The values that the artifact covers. -/
  values : OrderedSet α := ∅
  /-- The values that its siblings cover. -/
  alternatives : OrderedSet α := ∅
deriving DecidableEq

namespace Targeting

variable {α : Type} [LT α]

/-- The values of the artifact, and after them those of its siblings. -/
def all (t : Targeting α) : List α := t.values.toList ++ t.alternatives.toList

/-- Whether the targeting says nothing. -/
def isEmpty (t : Targeting α) : Bool := t.values.isEmpty && t.alternatives.isEmpty

/-- Whether the artifact or a sibling covers a value. -/
def contains [DecidableEq α] (t : Targeting α) (a : α) : Bool :=
  decide (a ∈ t.values) || decide (a ∈ t.alternatives)

/-- The smallest value on both sides. -/
def shared? [DecidableEq α] (t : Targeting α) : Option α :=
  t.values.toList.find? fun a => decide (a ∈ t.alternatives)

/-- Checks that no value is on both sides. -/
def checkDisjoint [DecidableEq α] [Display α] (dimension : String) (t : Targeting α) :
    Except BundleError Unit :=
  match t.shared? with
  | some a => .error (.invalidArgument (.overlap dimension (display a)))
  | none => .ok ()

/-- The value that the artifact covers, if any.  It must not cover two. -/
def single? [Display α] (dimension : String) (t : Targeting α) : Except BundleError (Option α) :=
  match t.values.toList with
  | [] => .ok none
  | [a] => .ok (some a)
  | as => .error (.invalidArgument (.severalValues dimension (listing as)))

end Targeting

end AppBundle
