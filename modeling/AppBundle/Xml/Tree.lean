import AppBundle.Xml.Attribute

/-!
# XML trees

A node is a text run or an element, and an element is what its start tag holds
together with its child nodes.  `Tag` is the start tag, so a node is a plain
tree of tags and texts, and `Element` is the view of a node that is known to be
an element.

Trees are compared by `Node.same`: everything must agree in order, except that
the attributes of an element are compared as a collection.  Two elements have
the same attributes when there are equally many and each one of the first
occurs in the second.
-/

namespace AppBundle.Xml

/-- What the start tag of an element holds. -/
structure Tag where
  /-- The namespace of the element, empty for none. -/
  namespaceUri : String := ""
  /-- The name of the element. -/
  name : String
  /-- The namespaces that the element declares. -/
  declarations : List Declaration := []
  /-- The attributes. -/
  attributes : List Attribute := []
deriving DecidableEq, Repr

/-- A tree of elements and text runs. -/
inductive Node where
  /-- An element with its children. -/
  | element (tag : Tag) (children : List Node)
  /-- A text run. -/
  | text (text : String)
deriving Repr, Inhabited

/-- An element: its start tag and its children. -/
structure Element extends Tag where
  /-- The child nodes, in document order. -/
  children : List Node := []
deriving Repr

namespace Node

/-- The node of an element. -/
def ofElement (e : Element) : Node := .element e.toTag e.children

/-- The element of a node, unless it is a text run. -/
def element? : Node → Option Element
  | element tag children => some ⟨tag, children⟩
  | text _ => none

/-- The text of a node, unless it is an element. -/
def text? : Node → Option String
  | element _ _ => none
  | text s => some s

@[simp] theorem element?_ofElement (e : Element) : (ofElement e).element? = some e := rfl

/-! ## Comparing trees -/

/-- Whether two lists of attributes have the same members, each occurrence counted once. -/
def sameAttributes (as bs : List Attribute) : Bool :=
  as.length == bs.length && as.all (bs.contains ·)

/-- Whether two start tags agree up to the order of the attributes. -/
def sameTag (s t : Tag) : Bool :=
  s.namespaceUri == t.namespaceUri && s.name == t.name && s.declarations == t.declarations &&
    sameAttributes s.attributes t.attributes

mutual

/-- Whether two trees agree up to the order of attributes. -/
def same : Node → Node → Bool
  | element s ms, element t ns => sameTag s t && sameAll ms ns
  | text s, text t => s == t
  | _, _ => false

/-- Whether two lists of trees agree one by one. -/
def sameAll : List Node → List Node → Bool
  | [], [] => true
  | m :: ms, n :: ns => same m n && sameAll ms ns
  | _, _ => false

end

instance : BEq Node := ⟨same⟩

/-! ## Walking a tree -/

mutual

/-- The elements of a tree, each before those below it. -/
def elements : Node → List Element
  | element tag children => ⟨tag, children⟩ :: elementsAll children
  | text _ => []

/-- The elements of a list of trees. -/
def elementsAll : List Node → List Element
  | [] => []
  | n :: ns => elements n ++ elementsAll ns

end

mutual

/-- Changes every attribute of a tree. -/
def mapAttributes (f : Attribute → Attribute) : Node → Node
  | element tag children =>
    element { tag with attributes := tag.attributes.map f } (mapAttributesAll f children)
  | text s => text s

/-- Changes every attribute of a list of trees. -/
def mapAttributesAll (f : Attribute → Attribute) : List Node → List Node
  | [] => []
  | n :: ns => mapAttributes f n :: mapAttributesAll f ns

end

end Node

namespace Element

/-- The element as a node. -/
def toNode (e : Element) : Node := .ofElement e

instance : BEq Element := ⟨fun a b => a.toNode == b.toNode⟩

/-- Whether the element has this name, in any namespace. -/
def isCalled (e : Element) (name : String) : Bool := e.name == name

/-- Whether the element has this name in this namespace. -/
def isNamed (e : Element) (uri name : String) : Bool := e.name == name && e.namespaceUri == uri

theorem isCalled_iff {e : Element} {name : String} : e.isCalled name ↔ e.name = name := beq_iff_eq

theorem isNamed_iff {e : Element} {uri name : String} :
    e.isNamed uri name ↔ e.name = name ∧ e.namespaceUri = uri := by
  rw [isNamed, Bool.and_eq_true, beq_iff_eq, beq_iff_eq]

/-! ## Attributes -/

/-- The first attribute with this name in this namespace. -/
def attribute? (e : Element) (uri name : String) : Option Attribute :=
  e.attributes.find? (·.isNamed uri name)

/-- The first attribute with this name in any namespace. -/
def attributeCalled? (e : Element) (name : String) : Option Attribute :=
  e.attributes.find? (·.name == name)

/-- The first attribute that the resource with this id defines. -/
def android? (e : Element) (id : UInt32) : Option Attribute := e.attributes.find? (·.hasId id)

/-! ## Children -/

/-- The child elements. -/
def childElements (e : Element) : List Element := e.children.filterMap Node.element?

/-- The child elements with this name, in any namespace. -/
def childrenCalled (e : Element) (name : String) : List Element :=
  e.childElements.filter (·.isCalled name)

/-- The child elements with this name in this namespace. -/
def childrenNamed (e : Element) (uri name : String) : List Element :=
  e.childElements.filter (·.isNamed uri name)

/-- The first child element with this name, in any namespace. -/
def childCalled? (e : Element) (name : String) : Option Element :=
  e.childElements.find? (·.isCalled name)

/-- The first child element with this name in this namespace. -/
def childNamed? (e : Element) (uri name : String) : Option Element :=
  e.childElements.find? (·.isNamed uri name)

/-- The text runs among the children, joined. -/
def text (e : Element) : String := String.join (e.children.filterMap Node.text?)

/-- The element and all elements below it, each before those below it. -/
def elements (e : Element) : List Element := e.toNode.elements

end Element

end AppBundle.Xml
