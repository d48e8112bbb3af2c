import AppBundle.Xml.Binary.StringPool
import AppBundle.Xml.Binary.StringTable

/-!
# Writing binary documents

A document is written as one chunk that holds the string pool, the resource map
if any attribute name has an id, and the chunks of the tree.  An element is its
declarations, its start, its children, its end, and the ends of its
declarations in reverse.

Writing fails where a size or a count does not fit its field, and for a tree
whose root is a text run.
-/

namespace AppBundle.Xml.Binary

/-- The index of no string, as a number. -/
def noIndexNat : Nat := 0xffffffff

/-! ## Chunks -/

/-- The size of the header of a string pool. -/
def poolHeaderSize : Nat := 28

/-- The size of the header of a node. -/
def nodeHeaderSize : Nat := 16

/-- The zeros that bring a length to a multiple of four. -/
def padding (length : Nat) : Bytes := List.replicate ((4 - length % 4) % 4) 0

/-- A chunk.  The size of its header may take in the beginning of the content. -/
def chunk (kind headerSize : Nat) (content : Bytes) : Except CodecError Bytes :=
  let padded := content ++ padding content.length
  let size := 8 + padded.length
  if size < UInt32.size then
    .ok (Bytes.ofNat 2 kind ++ Bytes.ofNat 2 headerSize ++ Bytes.ofNat 4 size ++ padded)
  else .error .chunkTooLarge

/-- The chunk of a node: a line number and a comment, both left open, and the content. -/
def nodeChunk (kind : Nat) (content : Bytes) : Except CodecError Bytes :=
  chunk kind nodeHeaderSize (Bytes.ofNat 4 0 ++ Bytes.ofNat 4 noIndexNat ++ content)

/-- The typed value of an attribute or a text run. -/
def typedValue (dataType data : Nat) : Bytes :=
  Bytes.ofNat 2 8 ++ [0] ++ Bytes.ofNat 1 dataType ++ Bytes.ofNat 4 data

/-! ## Strings -/

/-- The offsets at which strings of these sizes start. -/
def offsets : Nat → List Bytes → List Nat
  | _, [] => []
  | start, entry :: entries => start :: offsets (start + entry.length) entries

/-- The string pool, in UTF-16. -/
def poolChunk (strings : List String) : Except CodecError Bytes :=
  let entries := strings.map utf16Data
  let count := strings.length
  chunk stringPoolKind poolHeaderSize
    (Bytes.ofNat 4 count ++ Bytes.ofNat 4 0 ++ Bytes.ofNat 4 0 ++
      Bytes.ofNat 4 (poolHeaderSize + count * 4) ++ Bytes.ofNat 4 0 ++
      (offsets 0 entries).flatMap (Bytes.ofNat 4) ++ entries.flatten)

/-- The resource map, which is left out when it would be empty. -/
def resourceMapChunk (names : List IdentifiedName) : Except CodecError Bytes :=
  if names.isEmpty then .ok []
  else chunk resourceMapKind 8 (names.flatMap fun name => Bytes.ofNat 4 name.id.toNat)

/-! ## Attributes -/

/-- The raw text of a value, as an index, and its type and data. -/
structure ValueFields where
  /-- The index of the raw text. -/
  raw : Nat
  /-- The type. -/
  dataType : Nat
  /-- The data. -/
  data : Nat

/-- The fields of the value of an attribute.  Raw text without a compiled form
is also its typed value; a value that is not text has no raw text. -/
def valueFields (t : StringTable) (a : Attribute) : Except CodecError ValueFields :=
  match a.item with
  | none => do
    let index ← t.index? a.raw
    return ⟨index, 0x03, index⟩
  | some (.string text) => do
    let raw ← t.indexOrNone? a.raw
    return ⟨raw, 0x03, ← t.index? text⟩
  | some (.boolean value) => .ok ⟨noIndexNat, 0x12, if value then 0xffffffff else 0⟩
  | some (.decimal value) => .ok ⟨noIndexNat, 0x10, value.toUInt32.toNat⟩
  | some (.hex value) => .ok ⟨noIndexNat, 0x11, value.toNat⟩
  | some (.reference id _) => .ok ⟨noIndexNat, 0x01, id.toNat⟩
  | some (.primitive dataType data) => .ok ⟨noIndexNat, dataType.toNat, data.toNat⟩

/-- The bytes of an attribute. -/
def attributeBytes (t : StringTable) (a : Attribute) : Except CodecError Bytes := do
  let value ← valueFields t a
  let namespaceIndex ← t.indexOrNone? a.namespaceUri
  let nameIndex ← t.nameIndex? a
  return Bytes.ofNat 4 namespaceIndex ++ Bytes.ofNat 4 nameIndex ++ Bytes.ofNat 4 value.raw ++
    typedValue value.dataType value.data

/-! ## Trees -/

/-- The start or the end of a declaration. -/
def namespaceChunk (kind : Nat) (t : StringTable) (d : Declaration) : Except CodecError Bytes := do
  let pfx ← t.index? d.pfx
  let uri ← t.index? d.uri
  nodeChunk kind (Bytes.ofNat 4 pfx ++ Bytes.ofNat 4 uri)

/-- The indices of the namespace and the name of an element. -/
def tagName (t : StringTable) (tag : Tag) : Except CodecError Bytes := do
  let namespaceIndex ← t.indexOrNone? tag.namespaceUri
  let nameIndex ← t.index? tag.name
  return Bytes.ofNat 4 namespaceIndex ++ Bytes.ofNat 4 nameIndex

/-- The start of an element, after its declarations. -/
def startChunks (t : StringTable) (tag : Tag) : Except CodecError Bytes := do
  let declarations ← tag.declarations.mapM (namespaceChunk startNamespaceKind t)
  let name ← tagName t tag
  let attributes ← tag.attributes.mapM (attributeBytes t)
  if attributes.length ≥ UInt16.size then throw (.tooManyAttributes tag.name)
  let start ← nodeChunk startElementKind
    (name ++ Bytes.ofNat 2 20 ++ Bytes.ofNat 2 20 ++ Bytes.ofNat 2 attributes.length ++
      Bytes.ofNat 2 0 ++ Bytes.ofNat 2 0 ++ Bytes.ofNat 2 0 ++ attributes.flatten)
  return declarations.flatten ++ start

/-- The end of an element, before the ends of its declarations. -/
def endChunks (t : StringTable) (tag : Tag) : Except CodecError Bytes := do
  let close ← nodeChunk endElementKind (← tagName t tag)
  let declarations ← tag.declarations.reverse.mapM (namespaceChunk endNamespaceKind t)
  return close ++ declarations.flatten

/-- A text run. -/
def textChunk (t : StringTable) (text : String) : Except CodecError Bytes := do
  let index ← t.index? text
  nodeChunk textKind (Bytes.ofNat 4 index ++ typedValue 0x00 0)

mutual

/-- The chunks of a tree. -/
def nodeChunks (t : StringTable) : Node → Except CodecError Bytes
  | .element tag children => do
    let start ← startChunks t tag
    let inner ← nodesChunks t children
    let close ← endChunks t tag
    return start ++ inner ++ close
  | .text text => textChunk t text

/-- The chunks of a list of trees. -/
def nodesChunks (t : StringTable) : List Node → Except CodecError Bytes
  | [] => return []
  | n :: ns => do
    let first ← nodeChunks t n
    let rest ← nodesChunks t ns
    return first ++ rest

end

/-- The binary document of a tree. -/
def encode (n : Node) : Except CodecError Bytes :=
  match n with
  | .text _ => .error .rootIsText
  | .element _ _ => do
    let t := StringTable.ofNode n
    let pool ← poolChunk t.strings
    let resourceMap ← resourceMapChunk t.identified
    let tree ← nodeChunks t n
    chunk documentKind 8 (pool ++ resourceMap ++ tree)

end AppBundle.Xml.Binary
