import AppBundle.Text.Numeral

/-!
# Faults of XML documents

What can be wrong with a document that is read, or with a tree that is
written.  Each cause is a constructor; `CodecError.message` words it.  All
causes are faults of structure except `markup`, which stands for text that the
tokenizer does not accept.
-/

namespace AppBundle.Xml

/-- A stretch of a binary document that may end too early. -/
inductive Piece where
  /-- A field of a chunk. -/
  | field
  /-- The length in front of a UTF-8 string. -/
  | utf8Length
  /-- A UTF-8 string. -/
  | utf8Text
  /-- The length in front of a UTF-16 string. -/
  | utf16Length
  /-- A UTF-16 string. -/
  | utf16Text
deriving DecidableEq, Repr

/-- The name of a stretch in messages. -/
def Piece.name : Piece → String
  | field => "binary XML"
  | utf8Length => "UTF-8 string length"
  | utf8Text => "UTF-8 string"
  | utf16Length => "UTF-16 string length"
  | utf16Text => "UTF-16 string"

/-- What a string of the pool is looked up for. -/
inductive StringUse where
  /-- The name of an element. -/
  | element
  /-- The name of an attribute. -/
  | attributeName
  /-- The value of an attribute. -/
  | value
  /-- The URI of a declaration. -/
  | declaration
  /-- A text run. -/
  | text
deriving DecidableEq, Repr

/-- The name of a use in messages. -/
def StringUse.name : StringUse → String
  | element => "Element"
  | attributeName => "Attribute name"
  | value => "String value"
  | declaration => "Namespace"
  | text => "CDATA"

/-- A chunk that needs the string pool. -/
inductive PoolClient where
  /-- A declaration. -/
  | declaration
  /-- The start of an element. -/
  | element
  /-- A text run. -/
  | text
deriving DecidableEq, Repr

/-- The name of a chunk in messages. -/
def PoolClient.name : PoolClient → String
  | declaration => "Namespace chunk"
  | element => "Start element"
  | text => "CDATA"

/-- Why a document was not read, or a tree not written. -/
inductive CodecError where
  /-- The bytes ended inside a stretch. -/
  | truncated (piece : Piece)
  /-- A position lies beyond the last byte. -/
  | seekPastEnd
  /-- A chunk header is shorter than eight bytes, or longer than its chunk. -/
  | chunkSize
  /-- A chunk is longer than the bytes that are left. -/
  | chunkPastEnd
  /-- The strings of a pool start beyond its end. -/
  | stringsPastChunk
  /-- A string starts beyond the end of its pool. -/
  | stringPastChunk
  /-- A string is not UTF-8. -/
  | notUtf8
  /-- A string is not UTF-16. -/
  | notUtf16
  /-- A chunk names a string that the pool does not have. -/
  | missingIndex (use : StringUse) (index : UInt32)
  /-- A chunk came before the string pool. -/
  | beforePool (client : PoolClient)
  /-- The first chunk is not a document. -/
  | notDocument
  /-- The attributes of an element are declared shorter than twenty bytes. -/
  | attributeSize
  /-- The value of an attribute is declared with another size than eight bytes. -/
  | valueSize
  /-- An element ends that never started. -/
  | endWithoutStart
  /-- A second root element follows the first. -/
  | severalRoots
  /-- A binary document ends with open elements. -/
  | unclosedChunks
  /-- A binary document holds no element. -/
  | emptyDocument
  /-- A text document ends with open elements. -/
  | unclosedTags
  /-- A text document holds no element. -/
  | emptyText
  /-- A closing tag came while no element was open. -/
  | unbalancedTag
  /-- A closing tag came while no scope was open. -/
  | scopeUnderflow
  /-- The text does not follow the grammar of markup. -/
  | markup
  /-- A string to be written was never collected. -/
  | unlistedString (text : String)
  /-- An attribute name to be written was never collected. -/
  | unlistedAttribute (name : String)
  /-- A chunk does not fit a 32-bit size. -/
  | chunkTooLarge
  /-- An element has more attributes than a 16-bit count can say. -/
  | tooManyAttributes (element : String)
  /-- The tree to be written is a text run. -/
  | rootIsText
deriving DecidableEq, Repr

namespace CodecError

/-- The cause without the kind of fault in front. -/
def detail : CodecError → String
  | truncated piece => "Truncated " ++ piece.name
  | seekPastEnd => "Attempted to seek past end of document"
  | chunkSize => "Invalid chunk sizing in binary XML"
  | chunkPastEnd => "Chunk extends past end of document"
  | stringsPastChunk => "String data exceeds chunk bounds"
  | stringPastChunk => "String offset exceeds chunk bounds"
  | notUtf8 => "invalid utf-8"
  | notUtf16 => "invalid utf-16"
  | missingIndex use index =>
    use.name ++ " references invalid string index " ++ Text.decimal index.toNat
  | beforePool client => client.name ++ " encountered before string pool"
  | notDocument => "Binary XML does not start with RES_XML_TYPE header"
  | attributeSize => "Attribute size must be at least 20"
  | valueSize => "Attribute value size must be 8"
  | endWithoutStart => "End element without matching start"
  | severalRoots => "Multiple root elements in document"
  | unclosedChunks => "Unclosed XML elements at end of document"
  | emptyDocument => "Document has no root element"
  | unclosedTags => "Unclosed XML elements in document"
  | emptyText => "Document does not have a root element"
  | unbalancedTag => "Unbalanced end tag in document"
  | scopeUnderflow => "Namespace stack underflow"
  | markup => "XML error"
  | unlistedString text => "Missing pool string '" ++ text ++ "'"
  | unlistedAttribute name => "Missing pool string for attribute '" ++ name ++ "'"
  | chunkTooLarge => "Binary XML chunk larger than 4 GiB"
  | tooManyAttributes element => "Too many attributes on element '" ++ element ++ "'"
  | rootIsText => "Root node must be an element"

/-- Whether the fault is one of structure. -/
def isMalformed : CodecError → Bool
  | markup => false
  | _ => true

/-- The message of a fault. -/
def message (e : CodecError) : String :=
  if e.isMalformed then "Malformed XML document: " ++ e.detail else e.detail

end CodecError

end AppBundle.Xml
