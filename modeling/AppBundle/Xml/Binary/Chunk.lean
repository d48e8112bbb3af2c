import AppBundle.Bytes
import AppBundle.Xml.CodecError

/-!
# Chunks of a binary document

A binary document is a chunk, and so is each of its parts.  A chunk starts with
its kind, the size of its header and its own size; the header is at least these
eight bytes and lies within the chunk, and the chunk lies within the bytes.

Reads inside a chunk are relative to its first byte and are held back only by
the end of all bytes.  So `Chunk.bytes` runs from the first byte of the chunk
to the last byte of the input, and `Chunk.size` says how far it is to the next
chunk.
-/

namespace AppBundle.Xml.Binary

/-- A number of 32 bits in a binary document. -/
abbrev Word := UInt32

/-- A step that reads a binary document. -/
abbrev Read := Reader CodecError

/-- Reads one byte. -/
def byte : Read Nat := Reader.number (.truncated .field) 1

/-- Reads a number of two bytes. -/
def half : Read Nat := Reader.number (.truncated .field) 2

/-- Reads a number of four bytes. -/
def word : Read Word := UInt32.ofNat <$> Reader.number (.truncated .field) 4

/-- The index that stands for no string. -/
def noIndex : Word := 0xffffffff

/-! ## Kinds -/

/-- The number of the chunk that holds the strings. -/
def stringPoolKind : Nat := 0x0001

/-- The number of the chunk that is the document. -/
def documentKind : Nat := 0x0003

/-- The number of the chunk that starts a namespace. -/
def startNamespaceKind : Nat := 0x0100

/-- The number of the chunk that ends a namespace. -/
def endNamespaceKind : Nat := 0x0101

/-- The number of the chunk that starts an element. -/
def startElementKind : Nat := 0x0102

/-- The number of the chunk that ends an element. -/
def endElementKind : Nat := 0x0103

/-- The number of the chunk that holds a text run. -/
def textKind : Nat := 0x0104

/-- The number of the chunk that lists the resource ids of attribute names. -/
def resourceMapKind : Nat := 0x0180

/-! ## Chunks -/

/-- A chunk in an input. -/
structure Chunk where
  /-- What the chunk is. -/
  kind : Nat
  /-- The size of its header. -/
  headerSize : Nat
  /-- Its size, the header included. -/
  size : Nat
  /-- The bytes of the input from its first one on. -/
  bytes : Bytes

namespace Chunk

/-- Reads the kind and the two sizes of a chunk. -/
def header : Read (Nat × Nat × Nat) := do
  let kind ← half
  let headerSize ← half
  let size ← word
  return (kind, headerSize, size.toNat)

/-- The chunk that the bytes start with. -/
def read (bs : Bytes) : Except CodecError Chunk :=
  match header bs with
  | .error e => .error e
  | .ok ((kind, headerSize, size), _) =>
    if headerSize < 8 ∨ size < headerSize then .error .chunkSize
    else if bs.length < size then .error .chunkPastEnd
    else .ok { kind, headerSize, size, bytes := bs }

/-- A chunk is read when the fields of its header are, the header has at least its own
eight bytes and lies within the chunk, and the chunk lies within the bytes. -/
theorem read_ok_iff {bs : Bytes} {c : Chunk} :
    read bs = .ok c ↔ ∃ tail, header bs = .ok ((c.kind, c.headerSize, c.size), tail) ∧
      8 ≤ c.headerSize ∧ c.headerSize ≤ c.size ∧ c.size ≤ bs.length ∧ c.bytes = bs := by
  rw [read]
  constructor
  · intro h
    split at h
    · contradiction
    · rename_i kind headerSize size tail hheader
      split at h
      · contradiction
      · rename_i hsize
        obtain ⟨hle, hwithin⟩ := not_or.1 hsize
        split at h
        · contradiction
        · rename_i hlength
          cases h
          exact ⟨tail, hheader, Nat.le_of_not_lt hle, Nat.le_of_not_lt hwithin,
            Nat.le_of_not_lt hlength, rfl⟩
  · rintro ⟨tail, hheader, hle, hsize, hlength, rfl⟩
    simp only [hheader]
    rw [if_neg (by omega), if_neg (Nat.not_lt.2 hlength)]

/-- A chunk is at least eight bytes long and lies within the input. -/
theorem size_of_read {bs : Bytes} {c : Chunk} (h : read bs = .ok c) :
    8 ≤ c.size ∧ c.size ≤ bs.length := by
  obtain ⟨tail, -, hle, hsize, hlength, -⟩ := read_ok_iff.1 h
  exact ⟨Nat.le_trans hle hsize, hlength⟩

/-- The bytes of the input after the header. -/
def body (c : Chunk) : Bytes := c.bytes.drop c.headerSize

/-- The bytes of the chunk after the header. -/
def payload (c : Chunk) : Bytes := (c.bytes.take c.size).drop c.headerSize

/-- The bytes of the input from a position in the chunk on. -/
def seek (c : Chunk) (position : Nat) : Except CodecError Bytes :=
  match Bytes.skip? position c.bytes with
  | some rest => .ok rest
  | none => .error .seekPastEnd

end Chunk

end AppBundle.Xml.Binary
