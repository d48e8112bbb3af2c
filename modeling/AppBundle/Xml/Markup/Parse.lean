import AppBundle.Xml.Edit
import AppBundle.Xml.Markup.Scope
import AppBundle.Xml.Markup.Token
import AppBundle.Xml.Platform

/-!
# Reading text documents

The tokens of a document open and close elements, and each opening token opens
a scope of prefixes with its element.  `Builder` is what the tokens so far have
built and `Builder.step` what one token does to it.

Attribute values are compiled where their text is a literal.  An attribute
without a namespace, and an attribute of the platform that holds text, keeps
its text unless that names a resource.  An attribute whose prefix is not
declared has no namespace, and an attribute without a prefix never takes the
default one.
-/

namespace AppBundle.Xml.Markup

/-! ## Elements -/

/-- The prefix that an attribute declares, if it is a declaration. -/
def declaredPrefix? (key : String) : Option String :=
  match key.toList with
  | ['x', 'm', 'l', 'n', 's'] => some ""
  | 'x' :: 'm' :: 'l' :: 'n' :: 's' :: ':' :: pfx => some (String.ofList pfx)
  | _ => none

/-- The scope that the attributes of a tag declare.  Of two declarations of a
prefix the later one counts. -/
def scopeOf (attributes : List (String × String)) : Scope :=
  OrderedMap.ofList <| attributes.filterMap fun (key, value) =>
    (declaredPrefix? key).map fun pfx => (pfx, value)

/-- Whether only a resource is compiled in a value of this attribute. -/
def keepsText (uri name : String) : Bool :=
  uri == "" || uri == androidUri && Platform.isTextAttribute name

/-- Whether a compiled value refers to a resource. -/
def isReference : Item → Bool
  | .reference _ _ => true
  | _ => false

/-- The compiled form of the text of an attribute, if it has one. -/
def compile? (uri name value : String) : Option Item :=
  (Item.ofLiteral? value).filter fun item => !keepsText uri name || isReference item

/-- The attribute that a tag writes. -/
def attributeOf (scopes : List Scope) (key value : String) : Attribute :=
  let (pfx, name) := splitName key
  let namespaceUri := (pfx.bind (lookup? scopes)).getD ""
  let a : Attribute :=
    { namespaceUri, name,
      resourceId := if namespaceUri = androidUri then Platform.attributeId? name else none }
  match compile? namespaceUri name value with
  | some item => a.setItem item
  | none => a.setText value

/-- The element that a tag starts, within scopes of which the first is its own. -/
def elementOf (own : Scope) (scopes : List Scope) (key : String)
    (attributes : List (String × String)) : Element :=
  let (pfx, name) := splitName key
  let bare : Element := { namespaceUri := (lookup? scopes (pfx.getD "")).getD "", name }
  let declared := own.toList.foldl (fun e (pfx, uri) => e.declare ⟨pfx, uri⟩) bare
  let others := attributes.filter fun (key, _) => (declaredPrefix? key).isNone
  others.foldl (fun e (key, value) => e.insert (attributeOf scopes key value)) declared

/-! ## Documents -/

/-- What the tokens so far have built. -/
structure Builder where
  /-- The scopes, innermost first.  The outermost declares nothing. -/
  scopes : List Scope := [∅]
  /-- The open elements, innermost first. -/
  opened : List Element := []
  /-- The root, once it was closed. -/
  root : Option Element := none

namespace Builder

/-- Adds a closed element to the innermost open one, or makes it the root. -/
def attach (b : Builder) (e : Element) : Except CodecError Builder :=
  match b.opened with
  | parent :: opened => .ok { b with opened := parent.pushElement e :: opened }
  | [] => if b.root.isNone then .ok { b with root := some e } else .error .severalRoots

/-- Adds a run of text to the innermost open element; outside of the root it is dropped. -/
def addText (b : Builder) (text : String) : Builder :=
  match b.opened with
  | e :: opened => { b with opened := e.pushText text :: opened }
  | [] => b

/-- What a token does. -/
def step (b : Builder) : Token → Except CodecError Builder
  | .start key attributes isEmpty =>
    let own := scopeOf attributes
    let e := elementOf own (own :: b.scopes) key attributes
    if isEmpty then b.attach e
    else .ok { b with scopes := own :: b.scopes, opened := e :: b.opened }
  | .finish =>
    match b.opened with
    | [] => .error .unbalancedTag
    | e :: opened =>
      if b.scopes.length ≤ 1 then .error .scopeUnderflow
      else { b with scopes := b.scopes.drop 1, opened }.attach e
  | .text text =>
    let text := Text.trim text
    .ok (if text = "" then b else b.addText text)
  | .verbatim text => .ok (b.addText text)

/-- The root, once nothing is open. -/
def finish (b : Builder) : Except CodecError Element :=
  match b.opened, b.root with
  | _ :: _, _ => .error .unclosedTags
  | [], some e => .ok e
  | [], none => .error .emptyText

end Builder

/-- What a row of tokens builds, up to its first fault. -/
def build (b : Builder) (tokens : List (Except CodecError Token)) : Except CodecError Builder :=
  tokens.foldlM (fun b token => token.bind b.step) b

/-- The tree of a text document. -/
def parse (text : String) : Except CodecError Node := do
  let b ← build {} (tokens text)
  return (← b.finish).toNode

end AppBundle.Xml.Markup
