import AppBundle.Xml.Markup.Escape
import AppBundle.Xml.Markup.Scope

/-!
# Writing text documents

A tree is written without indentation.  Declarations come before the other
attributes, an element without children is one tag, and values and text runs
are escaped.  Names get the prefix that was declared last for their namespace.
-/

namespace AppBundle.Xml.Markup

/-- The text of an attribute value: a literal that reads back as the compiled
form, or else the raw text. -/
def valueText (a : Attribute) : String :=
  match a.item with
  | none => a.raw
  | some (.string text) => text
  | some (.reference id _) => "@0x" ++ Text.hex 8 id.toNat
  | some (.primitive _ data) => if a.raw = "" then "0x" ++ Text.hex 0 data.toNat else a.raw
  | some item => item.display

/-- An attribute in a tag, after a blank. -/
def attributeText (key value : String) : String := " " ++ key ++ "=\"" ++ escape value ++ "\""

/-- The attribute that writes a declaration. -/
def declarationText (d : Declaration) : String :=
  attributeText (if d.pfx = "" then "xmlns" else "xmlns:" ++ d.pfx) d.uri

/-- The declarations in force within an element, the last one first. -/
def inForce (declared : List Declaration) (tag : Tag) : List Declaration :=
  tag.declarations.reverse ++ declared

/-- The name and the attributes of a tag, within its own declarations. -/
def tagText (declared : List Declaration) (tag : Tag) : String :=
  qualify declared tag.namespaceUri tag.name ++
    String.join (tag.declarations.map declarationText) ++
    String.join (tag.attributes.map fun a =>
      attributeText (qualify declared a.namespaceUri a.name) (valueText a))

mutual

/-- The text of a tree among the declarations in force. -/
def nodeText (declared : List Declaration) : Node → String
  | .element tag children =>
    let declared := inForce declared tag
    let start := tagText declared tag
    match children with
    | [] => "<" ++ start ++ "/>"
    | child :: children =>
      "<" ++ start ++ ">" ++ nodeText declared child ++ nodesText declared children ++ "</" ++
        qualify declared tag.namespaceUri tag.name ++ ">"
  | .text text => escape text

/-- The text of a list of trees. -/
def nodesText (declared : List Declaration) : List Node → String
  | [] => ""
  | n :: ns => nodeText declared n ++ nodesText declared ns

end

/-- The line in front of a document. -/
def preamble : String := "<?xml version=\"1.0\" encoding=\"utf-8\"?>"

/-- The text document of a tree, whose root must be an element. -/
def write (n : Node) : Except CodecError String :=
  match n with
  | .text _ => .error .rootIsText
  | .element _ _ => .ok (preamble ++ nodeText [] n)

end AppBundle.Xml.Markup
