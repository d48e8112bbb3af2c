import AppBundle.Error

/-!
# Attributes

An attribute has a name in a namespace, perhaps the id of the resource that
defines it, and a value.  The value has two parts: the raw text and the
compiled form.  A compiled form that is not text stands alone, with empty raw
text; compiled text may stand beside raw text and then wins.

The setters keep to that rule.  The getters ask for one kind of value and fail
with `BundleError.unexpectedType` on another.
-/

namespace AppBundle.Xml

/-- A declaration of a namespace: a short name in front of a colon, and its URI. -/
structure Declaration where
  /-- The short name, empty for the default namespace. -/
  pfx : String
  /-- The URI. -/
  uri : String
deriving DecidableEq, Repr

/-- An attribute of an element. -/
structure Attribute where
  /-- The namespace, empty for none. -/
  namespaceUri : String := ""
  /-- The name within the namespace. -/
  name : String
  /-- The id of the resource that defines the attribute. -/
  resourceId : Option UInt32 := none
  /-- The raw text of the value. -/
  raw : String := ""
  /-- The compiled form of the value. -/
  item : Option Item := none
deriving DecidableEq, Repr

/-- The namespace of the attributes that the platform defines. -/
def androidUri : String := "http://schemas.android.com/apk/res/android"

namespace Attribute

/-- An attribute of the platform, known by its resource id. -/
def android (name : String) (id : UInt32) : Attribute :=
  { namespaceUri := androidUri, name, resourceId := some id }

/-- Whether the attribute has this name in this namespace. -/
def isNamed (a : Attribute) (uri name : String) : Bool :=
  a.namespaceUri == uri && a.name == name

/-- Whether a resource with this id defines the attribute. -/
def hasId (a : Attribute) (id : UInt32) : Bool := a.resourceId == some id

/-! ## Setters -/

/-- The attribute with raw text for a value. -/
def setText (a : Attribute) (text : String) : Attribute :=
  { a with raw := text, item := none }

/-- The attribute with compiled text, beside the raw text it has. -/
def setCompiledText (a : Attribute) (text : String) : Attribute :=
  { a with item := some (.string text) }

/-- The attribute with a compiled value alone. -/
def setItem (a : Attribute) (item : Item) : Attribute :=
  { a with raw := "", item := some item }

/-- The attribute with a truth value. -/
def setBoolean (a : Attribute) (value : Bool) : Attribute := a.setItem (.boolean value)

/-- The attribute with a signed number. -/
def setDecimal (a : Attribute) (value : Int32) : Attribute := a.setItem (.decimal value)

/-- The attribute with another id for the resource it refers to, if it refers to one. -/
def mapReference (f : UInt32 → UInt32) (a : Attribute) : Attribute :=
  { a with item := a.item.map (Item.mapId f) }

/-! ## Getters -/

/-- The error of a value that is not of the expected kind. -/
def unexpected (a : Attribute) (expected : Item.Kind) : BundleError :=
  .unexpectedType expected (a.item.map Item.kind) a.name

/-- The text of the value; compiled text wins over raw text. -/
def text? (a : Attribute) : Except BundleError String :=
  match a.item with
  | none => .ok a.raw
  | some (.string text) => .ok text
  | some _ => .error (a.unexpected .string)

/-- The truth value. -/
def boolean? (a : Attribute) : Except BundleError Bool :=
  match a.item with
  | some (.boolean value) => .ok value
  | _ => .error (a.unexpected .boolean)

/-- The signed number. -/
def decimal? (a : Attribute) : Except BundleError Int32 :=
  match a.item with
  | some (.decimal value) => .ok value
  | _ => .error (a.unexpected .decimal)

/-- The word. -/
def hex? (a : Attribute) : Except BundleError UInt32 :=
  match a.item with
  | some (.hex value) => .ok value
  | _ => .error (a.unexpected .hex)

/-- The id of the resource that the value refers to. -/
def reference? (a : Attribute) : Except BundleError UInt32 :=
  match a.item with
  | some (.reference id _) => .ok id
  | _ => .error (a.unexpected .reference)

/-- The value as people read it: the compiled form, or else the raw text. -/
def display (a : Attribute) : String :=
  match a.item with
  | some item => item.display
  | none => a.raw

/-- The integer of the value: a signed number, a word taken as signed, or text
that writes a signed number.  Other text is the fault that `fault` makes of it. -/
def integer? (a : Attribute) (fault : String → BundleFault) : Except BundleError Int32 :=
  match a.item with
  | some (.decimal value) => .ok value
  | some (.hex value) => .ok value.toInt32
  | _ => do
    let text ← a.text?
    match Text.readSigned32? (Text.trimBy Text.isBlank text.toList) with
    | some value => .ok value
    | none => .error (.invalidBundle (fault text))

end Attribute

end AppBundle.Xml
