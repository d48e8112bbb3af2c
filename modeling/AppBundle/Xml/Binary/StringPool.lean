import AppBundle.Text.Utf16
import AppBundle.Xml.Binary.Chunk

/-!
# The string pool

All text of a binary document stands in one pool, and chunks refer to it by
index.  The pool is written in UTF-8 or in UTF-16.

* A UTF-8 string is its length in characters, its length in bytes, and the
  bytes.  A length is one byte below `0x80`, or two bytes, the first of which
  has its high bit set and carries the upper seven bits.
* A UTF-16 string is its length in units and the units.  The length is one unit
  below `0x8000`, or two units in the same manner.
-/

namespace AppBundle.Xml.Binary

/-! ## Single strings -/

/-- Reads a length of one or two bytes. -/
def utf8Length : Bytes → Except CodecError (Nat × Bytes)
  | b :: bs =>
    if b.toNat < 0x80 then .ok (b.toNat, bs)
    else match bs with
      | low :: rest => .ok ((b.toNat - 0x80) * 0x100 + low.toNat, rest)
      | [] => .error (.truncated .utf8Length)
  | [] => .error (.truncated .utf8Length)

/-- The text of UTF-8 bytes. -/
def utf8Text (bs : Bytes) : Except CodecError String :=
  match String.fromUTF8? ⟨bs.toArray⟩ with
  | some text => .ok text
  | none => .error .notUtf8

/-- The string at the front of UTF-8 pool data. -/
def utf8Entry (bs : Bytes) : Except CodecError String := do
  let (_, afterChars) ← utf8Length bs
  let (length, afterBytes) ← utf8Length afterChars
  match Bytes.split? length afterBytes with
  | some (text, _) => utf8Text text
  | none => .error (.truncated .utf8Text)

/-- The units that the bytes hold, two bytes each; an odd byte at the end is left out. -/
def units : Bytes → List Nat
  | low :: high :: bs => (low.toNat + 0x100 * high.toNat) :: units bs
  | _ => []

/-- The text of the first `length` units. -/
def utf16Text (length : Nat) (us : List Nat) : Except CodecError String :=
  let text := us.take length
  if text.length < length then .error (.truncated .utf16Text)
  else match Text.Utf16.decode text with
    | some cs => .ok (String.ofList cs)
    | none => .error .notUtf16

/-- The string at the front of UTF-16 pool data, given as units. -/
def utf16Units : List Nat → Except CodecError String
  | u :: us =>
    if u < 0x8000 then utf16Text u us
    else match us with
      | v :: vs => utf16Text ((u - 0x8000) * 0x10000 + v) vs
      | [] => .error (.truncated .utf16Length)
  | [] => .error (.truncated .utf16Length)

/-- The string at the front of UTF-16 pool data. -/
def utf16Entry (bs : Bytes) : Except CodecError String := utf16Units (units bs)

/-- The UTF-16 pool data of a string: its length, its units and a zero. -/
def utf16Data (text : String) : Bytes :=
  let us := Text.Utf16.encode text.toList
  let length :=
    if us.length < 0x8000 then [us.length]
    else [0x8000 + us.length / 0x10000 % 0x8000, us.length % 0x10000]
  (length ++ us ++ [0]).flatMap (Bytes.ofNat 2)

/-! ## Reading the pool -/

/-- The strings of a document, by index. -/
structure StringPool where
  /-- The strings. -/
  strings : Array String

namespace StringPool

/-- The bit that says that the strings are UTF-8. -/
def utf8Flag : Nat := 0x100

/-- Reads the offsets of `count` strings, and each string at its offset in the data. -/
def readStrings (entry : Bytes → Except CodecError String) (data : Bytes) :
    Nat → Read (List String)
  | 0 => return []
  | count + 1 => do
    let offset ← word
    match Bytes.skip? offset.toNat data with
    | none => throw .stringPastChunk
    | some rest =>
      let text ← entry rest
      let texts ← readStrings entry data count
      return text :: texts

/-- Reads the number of strings, the flags and the start of the strings, which
follow the first eight bytes of the chunk whatever the size of its header. -/
def fields : Read (Nat × Bool × Nat) := do
  let count ← word
  let _styleCount ← word
  let flags ← word
  let start ← word
  return (count.toNat, flags.toNat / utf8Flag % 2 == 1, start.toNat)

/-- The pool of a chunk.  The strings lie within the chunk. -/
def ofChunk (c : Chunk) : Except CodecError StringPool := do
  let ((count, utf8, start), _) ← fields (c.bytes.drop 8)
  match Bytes.skip? start (c.bytes.take c.size) with
  | none => .error .stringsPastChunk
  | some data =>
    let (texts, _) ← readStrings (if utf8 then utf8Entry else utf16Entry) data count c.body
    return ⟨texts.toArray⟩

/-- The string at an index, unless the index stands for none or leaves the pool. -/
def get? (pool : StringPool) (index : Word) : Option String :=
  if index = noIndex then none else pool.strings[index.toNat]?

/-- The string at an index, which must be there. -/
def require (pool : StringPool) (use : StringUse) (index : Word) : Except CodecError String :=
  match pool.get? index with
  | some text => .ok text
  | none => .error (.missingIndex use index)

end StringPool

end AppBundle.Xml.Binary
