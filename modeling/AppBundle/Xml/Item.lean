import AppBundle.Text.Blank
import AppBundle.Text.Front

/-!
# Compiled values

An attribute value has a compiled form when its text names something that is
not text: a truth value, a number, a resource.  `Item` is that form, with two
more cases: a string that was stored compiled, and any other kind of value,
kept as its type byte and its word.

`Item.literal` takes a literal off the front of a text.  It tries these forms in
order, and keeps to the first that is there.

* `true` and `false` are truth values.
* `@0x` and hexadecimal digits name a resource.
* `0x` and hexadecimal digits are a word.
* an optional minus sign and decimal digits are a signed number.

A form whose number does not fit 32 bits is not there.  `Item.ofLiteral?` leaves
the blanks around a text out and asks that a literal takes all the rest.
-/

namespace AppBundle.Xml

open Text

/-- The compiled form of an attribute value. -/
inductive Item where
  /-- Text that was stored compiled. -/
  | string (text : String)
  /-- A truth value. -/
  | boolean (value : Bool)
  /-- A signed number, written in decimal. -/
  | decimal (value : Int32)
  /-- A word, written in hexadecimal. -/
  | hex (value : UInt32)
  /-- A resource, with its symbolic name if one is known. -/
  | reference (id : UInt32) (name : Option String)
  /-- A value of any other kind. -/
  | primitive (dataType : UInt8) (data : UInt32)
deriving DecidableEq, Repr

namespace Item

/-- The kinds of compiled values. -/
inductive Kind where
  /-- Text. -/
  | string
  /-- A truth value. -/
  | boolean
  /-- A signed number. -/
  | decimal
  /-- A word. -/
  | hex
  /-- A resource. -/
  | reference
  /-- Any other value. -/
  | primitive
deriving DecidableEq, Repr

/-- The name of a kind in messages. -/
def Kind.name : Kind → String
  | string => "string"
  | boolean => "boolean"
  | decimal => "decimal integer"
  | hex => "hex integer"
  | reference => "reference"
  | primitive => "primitive"

/-- The kind of a compiled value. -/
def kind : Item → Kind
  | string _ => .string
  | boolean _ => .boolean
  | decimal _ => .decimal
  | hex _ => .hex
  | reference _ _ => .reference
  | primitive _ _ => .primitive

/-- The text of a truth value. -/
def booleanText (b : Bool) : String := if b then "true" else "false"

/-- The value as people read it.  A resource shows its symbolic name, or else its id. -/
def display : Item → String
  | string text => text
  | boolean value => booleanText value
  | decimal value => signedDecimal value.toInt
  | hex value => "0x" ++ Text.hex 0 value.toNat
  | reference _ (some name) => "@" ++ name
  | reference id none => "0x" ++ Text.hex 8 id.toNat
  | primitive dataType data =>
    "(0x" ++ Text.hex 2 dataType.toNat ++ ") 0x" ++ Text.hex 8 data.toNat

/-- Changes the id of a resource and leaves every other value alone. -/
def mapId (f : UInt32 → UInt32) : Item → Item
  | reference id name => reference (f id) name
  | item => item

/-! ## Literals -/

/-- Takes the word written by hexadecimal digits after `0x`, in either case. -/
def hexWord : Front UInt32 := do
  Front.tagAnyCase ['0', 'x']
  let digits ← Front.digits 16
  (natural? 16 digits).bind word32?

/-- Takes the signed number written by decimal digits, with an optional minus sign. -/
def signedNumber : Front Int32 := do
  readSigned32? (← Front.signedDigits)

/-- Takes a literal.  The forms are tried in this order. -/
def literal : Front Item :=
  (do Front.tag ['t', 'r', 'u', 'e']; return boolean true)
  <|> (do Front.tag ['f', 'a', 'l', 's', 'e']; return boolean false)
  <|> (do Front.tag ['@']; return reference (← hexWord) none)
  <|> (do return hex (← hexWord))
  <|> (do return decimal (← signedNumber))

/-- The compiled value that a text writes, if it is a literal. -/
def ofLiteral? (text : String) : Option Item := literal.whole (trimBy isBlank text.toList)

end Item

/-! ## Identifiers -/

/-- Takes a letter followed by letters, digits and underscores, all ASCII. -/
def identifier : Front Unit := do
  let _ ← Front.satisfy Char.isAlpha
  let _ ← Front.run fun c => c.isAlphanum || c == '_'

/-- Whether the text is a letter followed by letters, digits and underscores, all ASCII. -/
def isIdentifier (text : String) : Bool := (identifier.whole text.toList).isSome

end AppBundle.Xml
