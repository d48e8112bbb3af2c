import AppBundle.Xml.Binary.StringPool
import AppBundle.Xml.Edit

/-!
# Reading binary documents

A document chunk holds a flat row of chunks.  The string pool comes before all
chunks that refer to it.  Declarations are collected until the element that
they belong to starts; an element stays open until its end chunk, and then
becomes a child of the element around it, or the root.

`State` is what the row has built so far and `State.step` what one chunk does
to it.  `Walk` is where the reader has come to: a position in the input, and the
state there.  One round reads the chunk at the position, takes its step and goes on
where the chunk ends (`Walk.next?`); rounds follow until the position reaches the
end of the document chunk (`Walk.run?`).  A chunk may reach beyond that end; then it
is the last one.  A chunk has at least its own header, so a round that succeeds goes
forward, and within the input (`Walk.advance`).
-/

namespace AppBundle.Xml.Binary

/-- What the chunks so far have built. -/
structure State where
  /-- The string pool, once it was read. -/
  pool : Option StringPool := none
  /-- The resource ids of attribute names, by string index. -/
  resourceIds : Array Word := #[]
  /-- The declarations of the next element. -/
  pending : List Declaration := []
  /-- The open elements, innermost first. -/
  opened : List Element := []
  /-- The root, once it was closed. -/
  root : Option Element := none

/-! ## Attributes -/

/-- The bytes that an attribute takes at least. -/
def attributeSize : Nat := 20

/-- The bytes that the value of an attribute takes. -/
def valueSize : Nat := 8

/-- Gives an attribute its value: the raw text, if there is any, and then the
typed value.  A typed string equal to the raw text adds nothing. -/
def setValue (pool : StringPool) (a : Attribute) (raw : Option String) (dataType : Nat)
    (data : Word) : Except CodecError Attribute :=
  let a := match raw with
    | some text => a.setText text
    | none => a
  match dataType with
  | 0x00 => .ok a
  | 0x01 => .ok (a.setItem (.reference data none))
  | 0x03 => do
    let text ← pool.require .value data
    return if raw = some text then a else a.setCompiledText text
  | 0x10 => .ok (a.setItem (.decimal data.toInt32))
  | 0x11 => .ok (a.setItem (.hex data))
  | 0x12 => .ok (a.setItem (.boolean (data != 0)))
  | other => .ok (a.setItem (.primitive (UInt8.ofNat other) data))

/-- The id that the resource map gives to a string index, zero standing for none. -/
def resourceId? (ids : Array Word) (index : Word) : Option Word :=
  ids[index.toNat]?.filter (· ≠ 0)

/-- Reads an attribute. -/
def readAttribute (pool : StringPool) (ids : Array Word) : Read Attribute := do
  let namespaceUri := (pool.get? (← word)).getD ""
  let nameIndex ← word
  let raw := pool.get? (← word)
  if (← half) ≠ valueSize then throw .valueSize
  let _reserved ← byte
  let dataType ← byte
  let data ← word
  let name ← pool.require .attributeName nameIndex
  setValue pool { namespaceUri, name, resourceId := resourceId? ids nameIndex } raw dataType data

/-! ## Elements -/

/-- The fields of the chunk that starts an element. -/
structure ElementStart where
  /-- The namespace of the element. -/
  namespaceUri : String
  /-- The name of the element. -/
  name : String
  /-- The place of the attributes, from the end of the header. -/
  attributeStart : Nat
  /-- The distance from one attribute to the next. -/
  stride : Nat
  /-- The number of attributes. -/
  count : Nat

/-- Reads the fields of the chunk that starts an element. -/
def readElementStart (pool : StringPool) : Read ElementStart := do
  let namespaceUri := (pool.get? (← word)).getD ""
  let name ← pool.require .element (← word)
  let attributeStart ← half
  let stride ← half
  let count ← half
  if stride < attributeSize then throw .attributeSize
  return { namespaceUri, name, attributeStart, stride, count }

/-- The element that a chunk starts, with the declarations collected before it. -/
def startedElement (pool : StringPool) (s : State) (c : Chunk) : Except CodecError Element := do
  let (start, _) ← readElementStart pool c.body
  let bare : Element := { namespaceUri := start.namespaceUri, name := start.name }
  let declared := s.pending.foldl Element.declare bare
  (List.range start.count).foldlM (fun e i => do
    let bs ← c.seek (c.headerSize + start.attributeStart + i * start.stride)
    let (a, _) ← readAttribute pool s.resourceIds bs
    return e.insert a) declared

/-- The words that the bytes hold, four bytes each; a rest is left out. -/
def words : Bytes → List Word
  | b₀ :: b₁ :: b₂ :: b₃ :: bs => UInt32.ofNat (Bytes.toNat [b₀, b₁, b₂, b₃]) :: words bs
  | _ => []

/-! ## The row of chunks -/

namespace State

/-- The string pool, which a chunk needs. -/
def loaded (s : State) (client : PoolClient) : Except CodecError StringPool :=
  match s.pool with
  | some pool => .ok pool
  | none => .error (.beforePool client)

/-- Collects a declaration. -/
def startNamespace (s : State) (c : Chunk) : Except CodecError State := do
  let pool ← s.loaded .declaration
  let (pfx, rest) ← word c.body
  let (uri, _) ← word rest
  let d : Declaration := ⟨(pool.get? pfx).getD "", ← pool.require .declaration uri⟩
  return { s with pending := s.pending ++ [d] }

/-- Opens an element. -/
def startElement (s : State) (c : Chunk) : Except CodecError State := do
  let pool ← s.loaded .element
  let e ← startedElement pool s c
  return { s with pending := [], opened := e :: s.opened }

/-- Closes the innermost element. -/
def endElement (s : State) : Except CodecError State :=
  match s.opened with
  | [] => .error .endWithoutStart
  | e :: parent :: opened => .ok { s with opened := parent.pushElement e :: opened }
  | [e] =>
    if s.root.isNone then .ok { s with opened := [], root := some e } else .error .severalRoots

/-- Adds a text run to the innermost element; outside of the root it is dropped. -/
def addText (s : State) (c : Chunk) : Except CodecError State := do
  let pool ← s.loaded .text
  let (index, _) ← word c.body
  let text ← pool.require .text index
  match s.opened with
  | [] => return s
  | e :: opened => return { s with opened := e.pushText text :: opened }

/-- What a chunk does.  Chunks of other kinds carry nothing that the tree needs. -/
def step (s : State) (c : Chunk) : Except CodecError State :=
  if c.kind = stringPoolKind then
    (StringPool.ofChunk c).map fun pool => { s with pool := some pool }
  else if c.kind = resourceMapKind then .ok { s with resourceIds := (words c.payload).toArray }
  else if c.kind = startNamespaceKind then s.startNamespace c
  else if c.kind = startElementKind then s.startElement c
  else if c.kind = endElementKind then s.endElement
  else if c.kind = textKind then s.addText c
  else .ok s

/-- The root, once nothing is open. -/
def finish (s : State) : Except CodecError Element :=
  match s.opened, s.root with
  | _ :: _, _ => .error .unclosedChunks
  | [], some e => .ok e
  | [], none => .error .emptyDocument

end State

/-- Where a reader has come to in the row of chunks of a document. -/
structure Walk where
  /-- The position of the next chunk in the input. -/
  position : Nat
  /-- What the chunks so far have built. -/
  state : State

namespace Walk

/-- One round of the reader: the chunk at the position is read, its step is taken, and
the walk goes on where it ends. -/
def next? (input : Bytes) (w : Walk) : Except CodecError Walk := do
  let c ← Chunk.read (input.drop w.position)
  let s ← w.state.step c
  return ⟨w.position + c.size, s⟩

variable {input : Bytes} {stop : Nat} {w w' : Walk}

/-- A round reads a chunk, which takes the walk from one end of it to the other. -/
theorem next?_ok_iff : w.next? input = .ok w' ↔
    ∃ c s, Chunk.read (input.drop w.position) = .ok c ∧ w.state.step c = .ok s ∧
      w' = ⟨w.position + c.size, s⟩ := by
  rw [next?]
  constructor
  · intro h
    cases hread : Chunk.read (input.drop w.position) with
    | error e => simp only [hread] at h; cases h
    | ok c =>
      cases hstep : w.state.step c with
      | error e => simp only [hread, hstep, bind, Except.bind] at h; cases h
      | ok s =>
        simp only [hread, hstep, bind, Except.bind] at h
        cases h
        exact ⟨c, s, rfl, hstep, rfl⟩
  · rintro ⟨c, s, hread, hstep, rfl⟩
    simp only [hread, hstep, bind, Except.bind]
    rfl

/-- A round that succeeds leaves the position at least eight bytes further, and within
the input. -/
theorem advance (h : w.next? input = .ok w') :
    w.position + 8 ≤ w'.position ∧ w'.position ≤ input.length := by
  obtain ⟨c, s, hread, -, rfl⟩ := next?_ok_iff.1 h
  obtain ⟨hsize, hlength⟩ := Chunk.size_of_read hread
  rw [List.length_drop] at hlength
  simp only
  omega

/-- Walks on until the position reaches `stop`. -/
def run? (input : Bytes) (stop : Nat) (w : Walk) : Except CodecError State :=
  if stop ≤ w.position then .ok w.state
  else match _h : w.next? input with
    | .error e => .error e
    | .ok w' => run? input stop w'
termination_by input.length - w.position
decreasing_by
  have := advance _h
  omega

/-- A walk that has reached the end is over. -/
theorem run?_of_le (h : stop ≤ w.position) : w.run? input stop = .ok w.state := by
  rw [run?, if_pos h]

/-- Before the end a walk does a round and goes on from there. -/
theorem run?_of_lt (h : w.position < stop) :
    w.run? input stop = w.next? input >>= run? input stop := by
  rw [run?, if_neg (Nat.not_le.2 h)]
  split
  · rename_i e hnext
    rw [hnext]
    rfl
  · rename_i w' hnext
    rw [hnext]
    rfl

end Walk

/-- The tree of a binary document. -/
def decode (bs : Bytes) : Except CodecError Node := do
  let c ← Chunk.read bs
  if c.kind ≠ documentKind then throw .notDocument
  let s ← Walk.run? bs c.size ⟨c.headerSize, {}⟩
  return (← s.finish).toNode

end AppBundle.Xml.Binary
