import AppBundle.Xml.Tree

/-!
# Elements of the distribution namespace

The distribution elements of a manifest follow a closed schema: an element has
children of a few kinds, told apart by name, and attributes of a few names.
All of them stand in the distribution namespace.  A child or an attribute with
a known name outside the namespace is a fault of its own.
-/

namespace AppBundle.Delivery

open Xml

variable {κ : Type}

/-! ## Children -/

/-- The kind of a child of `parent`.  The name decides; the namespace is checked after it. -/
def classify (parent : String) (kinds : List (String × κ)) (e : Element) : Except BundleError κ :=
  match kinds.lookup e.name with
  | none => .error (.invalidBundle (.unexpectedElement e.name e.namespaceUri parent))
  | some kind =>
    if e.namespaceUri = distributionUri then .ok kind
    else .error (.invalidBundle (.elementNamespace e.name e.namespaceUri parent))

/-- Checks that an element has no child elements. -/
def expectNoChildren (e : Element) : Except BundleError Unit :=
  match e.childElements with
  | [] => .ok ()
  | child :: _ => .error (.invalidBundle (.unexpectedChild e.name child.name))

/-! ## Attributes -/

/-- The attribute with a name, which may be missing. -/
def optional? (e : Element) (name : String) : Except BundleError (Option Attribute) :=
  match e.attribute? distributionUri name with
  | some a => .ok (some a)
  | none =>
    match e.attributeCalled? name with
    | some a => .error (.invalidBundle (.attributeNamespace name e.name a.namespaceUri))
    | none => .ok none

/-- The attribute with a name, which must be there. -/
def required? (e : Element) (name : String) : Except BundleError Attribute := do
  match ← optional? e name with
  | some a => return a
  | none => throw (.invalidBundle (.missingAttribute name e.name))

/-- The integer of an attribute. -/
def integer? (e : Element) (a : Attribute) : Except BundleError Int32 :=
  a.integer? fun text => .notInteger a.name e.name text

/-- The truth value of an attribute, which may be written as text. -/
def boolean? (e : Element) (a : Attribute) : Except BundleError Bool :=
  match a.boolean? with
  | .ok value => .ok value
  | .error _ => do
    let text ← a.text?
    if text = "true" then return true
    else if text = "false" then return false
    else throw (.invalidBundle (.notBoolean a.name e.name text))

end AppBundle.Delivery
