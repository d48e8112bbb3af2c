import AppBundle.FirstMatch
import AppBundle.Xml.Tree

/-!
# Editing elements

An edit makes a new element out of an old one.  Attributes are addressed by
name and namespace, or by the id of the resource that defines them; child
elements by a test.  Each edit that is to find something and may miss it comes
in the form that creates what is missing.

`Element.modifyAt?` applies an edit to an element further down, addressed by
the positions of child elements from the root.
-/

namespace AppBundle.Xml

namespace Attribute

/-- The attribute that an edit by name starts from: the first of that name, or a new one. -/
def named (as : List Attribute) (uri name : String) : Attribute :=
  (as.find? (·.isNamed uri name)).getD { namespaceUri := uri, name }

/-- The attribute that an edit by id starts from: the first with the id, else
the first with the name in the platform's namespace, else a new one.  It has
the id in any case. -/
def identified (as : List Attribute) (name : String) (id : UInt32) : Attribute :=
  { ((as.find? (·.hasId id)).or (as.find? (·.isNamed androidUri name))).getD (android name id) with
    resourceId := some id }

end Attribute

namespace Element

/-! ## Names and declarations -/

/-- The element with one more declaration, unless it has it. -/
def declare (e : Element) (d : Declaration) : Element :=
  if d ∈ e.declarations then e else { e with declarations := e.declarations ++ [d] }

/-! ## Attributes -/

/-- The element with an attribute, in place of the first one of the same name. -/
def insert (e : Element) (a : Attribute) : Element :=
  { e with
    attributes :=
      FirstMatch.modifyOrPush (·.isNamed a.namespaceUri a.name) (fun _ => a) a e.attributes }

/-- Changes the first attribute of a name. -/
def modify (e : Element) (uri name : String) (f : Attribute → Attribute) : Element :=
  { e with attributes := FirstMatch.modify (·.isNamed uri name) f e.attributes }

/-- Changes the first attribute with an id. -/
def modifyAndroid (e : Element) (id : UInt32) (f : Attribute → Attribute) : Element :=
  { e with attributes := FirstMatch.modify (·.hasId id) f e.attributes }

/-- Changes the first attribute of a name, creating it when there is none. -/
def alter (e : Element) (uri name : String) (f : Attribute → Attribute) : Element :=
  { e with
    attributes :=
      FirstMatch.modifyOrPush (·.isNamed uri name) f (f { namespaceUri := uri, name })
        e.attributes }

/-- Changes the attribute with an id: the first that has it, else the first of
the name in the platform's namespace, else a new one.  It gets the id before
the change. -/
def alterAndroid (e : Element) (name : String) (id : UInt32) (f : Attribute → Attribute) :
    Element :=
  let change (a : Attribute) : Attribute := f { a with resourceId := some id }
  let attributes :=
    if e.attributes.any (·.hasId id) then FirstMatch.modify (·.hasId id) change e.attributes
    else FirstMatch.modifyOrPush (·.isNamed androidUri name) change
      (change (.android name id)) e.attributes
  { e with attributes }

/-- The element without the attributes of a name. -/
def erase (e : Element) (uri name : String) : Element :=
  { e with attributes := e.attributes.filter fun a => !a.isNamed uri name }

/-- The element without the attributes that have an id. -/
def eraseAndroid (e : Element) (id : UInt32) : Element :=
  { e with attributes := e.attributes.filter fun a => !a.hasId id }

/-- Changes every attribute of the element and of all elements below it. -/
def mapAttributes (f : Attribute → Attribute) (e : Element) : Element :=
  { e with
    attributes := e.attributes.map f
    children := Node.mapAttributesAll f e.children }

/-! ## Children -/

/-- The element with one more child at the end. -/
def push (e : Element) (n : Node) : Element := { e with children := e.children ++ [n] }

/-- The element with one more child element at the end. -/
def pushElement (e child : Element) : Element := e.push child.toNode

/-- The element with one more text run at the end. -/
def pushText (e : Element) (text : String) : Element := e.push (.text text)

/-- A test of elements as a test of nodes, which text runs fail. -/
def onNode (p : Element → Bool) (n : Node) : Bool := n.element?.any p

/-- A change of elements as a change of nodes, which leaves text runs alone. -/
def inNode (f : Element → Element) : Node → Node
  | .element tag children => (f ⟨tag, children⟩).toNode
  | .text s => .text s

/-- Changes the first child element that passes a test. -/
def modifyChild (e : Element) (p : Element → Bool) (f : Element → Element) : Element :=
  { e with children := FirstMatch.modify (onNode p) (inNode f) e.children }

/-- Changes the first child element that passes a test, or `new` put at the end. -/
def alterChild (e : Element) (p : Element → Bool) (new : Element) (f : Element → Element) :
    Element :=
  { e with children := FirstMatch.modifyOrPush (onNode p) (inNode f) (f new).toNode e.children }

/-- Changes the first child element of a name, creating it when there is none. -/
def alterChildNamed (e : Element) (uri name : String) (f : Element → Element) : Element :=
  e.alterChild (·.isNamed uri name) { namespaceUri := uri, name } f

/-- The element without the child elements that pass a test. -/
def eraseChildren (e : Element) (p : Element → Bool) : Element :=
  { e with children := e.children.filter fun n => !onNode p n }

/-! ## Further down -/

/-- Changes the child element at a position, text runs not counted. -/
def modifyChildAt? (f : Element → Option Element) : List Node → Nat → Option (List Node)
  | [], _ => none
  | .text s :: ns, i => (modifyChildAt? f ns i).map (.text s :: ·)
  | .element tag children :: ns, 0 => (f ⟨tag, children⟩).map fun e => e.toNode :: ns
  | n :: ns, i + 1 => (modifyChildAt? f ns i).map (n :: ·)

/-- Changes the element at the end of a way down, which names at each step the
position of a child element.  There may be none. -/
def modifyAt? : List Nat → (Element → Element) → Element → Option Element
  | [], f, e => some (f e)
  | i :: way, f, e =>
    (modifyChildAt? (modifyAt? way f) e.children i).map fun children => { e with children }

/-- The element at the end of a way down. -/
def at? : List Nat → Element → Option Element
  | [], e => some e
  | i :: way, e => e.childElements[i]?.bind (at? way)

end Element

end AppBundle.Xml
