import AppBundle.Proofs.Xml.Binary.Row
import Mathlib.Data.List.Forall2

/-!
# Where the strings of a pool stand

The chunk of a string pool is a header, the places of the strings, and the
strings.  A place is counted from where the strings start, so the strings may
stand in any order and may share bytes, and anything may stand between and
behind them: the places and the texts of styles, and zeros.  `Layout` is such a
chunk and `Layout.Holds form strings` says that its places lead to these
strings, each in the form that is asked for.

A reader of single strings reads a form when it gives back the string whatever
follows it (`Reads`).  Then the chunk is read as the strings that it holds
(`Layout.decodesTo`).

A pool that is written has one string behind the other (`packed`), in whatever
form they are (`holds_packed`).
-/

namespace AppBundle.Xml.Binary

theorem length_offsets (start : Nat) (entries : List Bytes) :
    (offsets start entries).length = entries.length := by
  induction entries generalizing start with
  | nil => rfl
  | cons entry entries ih => rw [offsets, List.length_cons, List.length_cons, ih]

namespace StringPool

/-- A way to write single strings, which may leave a choice. -/
abbrev Form := String → Bytes → Prop

/-- Strings in this form are read back, whatever follows them. -/
def Reads (read : Bytes → Except CodecError String) (form : Form) : Prop :=
  ∀ text entry, form text entry → entry.length < UInt32.size →
    ∀ rest, read (entry ++ rest) = .ok text

/-- The string stands at this place of the data. -/
def StoredAt (form : Form) (data : Bytes) (place : Nat) (text : String) : Prop :=
  ∃ front entry behind, data = front ++ (entry ++ behind) ∧ front.length = place ∧ form text entry

/-- How a string pool lies in a document. -/
structure Layout where
  /-- The number of styles. -/
  styleCount : Nat
  /-- The flags. -/
  flags : Nat
  /-- What the header has behind the start of the strings. -/
  headerEnd : Bytes
  /-- The place of each string. -/
  places : List Nat
  /-- What stands between the places and the strings. -/
  between : Bytes
  /-- The strings, and what follows them in the chunk. -/
  data : Bytes

/-! ## Reading strings at their places -/

section Places

variable {form : Form} {data : Bytes} {places : List Nat} {strings : List String}

/-- The strings are read, each at its place. -/
theorem readStrings_of_storedAt {read : Bytes → Except CodecError String} (hread : Reads read form)
    (hdata : data.length < UInt32.size) (h : List.Forall₂ (StoredAt form data) places strings)
    (rest : Bytes) :
    readStrings read data places.length (places.flatMap (Bytes.ofNat 4) ++ rest) =
      .ok (strings, rest) := by
  induction h with
  | nil => rfl
  | cons hfirst _ ih =>
    obtain ⟨front, entry, behind, rfl, rfl, hentry⟩ := hfirst
    simp only [List.length_append] at hdata
    have hword : (UInt32.ofNat front.length).toNat = front.length :=
      UInt32.toNat_ofNat_of_lt' (by omega)
    have htext := hread _ _ hentry (by omega) behind
    rw [List.length_cons, List.flatMap_cons, List.append_assoc, readStrings,
      Reader.bind_ok (word_append _ _), hword, Bytes.skip?_eq, if_pos (by simp), List.drop_left]
    simp only
    rw [Reader.bind_ok (Reader.lift_ok htext), Reader.bind_ok ih]
    rfl

/-- Strings that stand one behind the other stand at their offsets. -/
theorem storedAt_offsets {entries : List Bytes} (h : List.Forall₂ form strings entries)
    (before after : Bytes) :
    List.Forall₂ (StoredAt form (before ++ (entries.flatten ++ after)))
      (offsets before.length entries) strings := by
  induction h generalizing before with
  | nil => exact .nil
  | @cons text entry texts entries hfirst _ ih =>
    have hrest := ih (before ++ entry)
    rw [List.length_append, List.append_assoc, ← List.append_assoc entry] at hrest
    exact .cons ⟨before, entry, entries.flatten ++ after,
      by rw [List.flatten_cons, List.append_assoc], rfl, hfirst⟩ hrest

end Places

/-! ## The chunk -/

namespace Layout

variable (L : Layout)

/-- The size of the header. -/
def headerSize : Nat := 24 + L.headerEnd.length

/-- The place of the strings in the chunk. -/
def start : Nat := L.headerSize + L.places.length * 4 + L.between.length

/-- The size of the chunk. -/
def size : Nat := L.start + L.data.length

/-- Whether the flags say that the strings are UTF-8. -/
def isUtf8 : Bool := L.flags / utf8Flag % 2 == 1

/-- The reader of single strings that the flags ask for. -/
def entryReader : Bytes → Except CodecError String :=
  if L.isUtf8 then utf8Entry else utf16Entry

/-- What the chunk holds behind its size. -/
def content : Bytes :=
  Bytes.ofNat 4 L.places.length ++ (Bytes.ofNat 4 L.styleCount ++ (Bytes.ofNat 4 L.flags ++
    (Bytes.ofNat 4 L.start ++ (L.headerEnd ++ (L.places.flatMap (Bytes.ofNat 4) ++
      (L.between ++ L.data))))))

/-- The bytes of the chunk. -/
def bytes : Bytes :=
  Bytes.ofNat 2 stringPoolKind ++
    (Bytes.ofNat 2 L.headerSize ++ (Bytes.ofNat 4 L.size ++ L.content))

/-- The header of the chunk. -/
def header : Bytes :=
  Bytes.ofNat 2 stringPoolKind ++ Bytes.ofNat 2 L.headerSize ++ Bytes.ofNat 4 L.size ++
    Bytes.ofNat 4 L.places.length ++ Bytes.ofNat 4 L.styleCount ++ Bytes.ofNat 4 L.flags ++
    Bytes.ofNat 4 L.start ++ L.headerEnd

/-- The sizes of the header and of the chunk have room in their fields. -/
structure Fits : Prop where
  /-- The header has. -/
  headerSize_lt : L.headerSize < 0x10000
  /-- The chunk has. -/
  size_lt : L.size < UInt32.size

/-- The places lead to these strings, in this form. -/
def Holds (form : Form) (strings : List String) : Prop :=
  List.Forall₂ (StoredAt form L.data) L.places strings

/-- The chunk is read as these strings, whatever follows it. -/
def DecodesTo (strings : List String) : Prop :=
  ∀ rest, ∃ c, Chunk.read (L.bytes ++ rest) = .ok c ∧ c.kind = stringPoolKind ∧
    c.size = L.bytes.length ∧ ofChunk c = .ok ⟨strings.toArray⟩

theorem length_header : L.header.length = L.headerSize := by
  simp only [header, headerSize, List.length_append, Bytes.length_ofNat]

theorem bytes_eq :
    L.bytes = L.header ++ (L.places.flatMap (Bytes.ofNat 4) ++ (L.between ++ L.data)) := by
  simp only [bytes, content, header, List.append_assoc]

theorem length_bytes : L.bytes.length = L.size := by
  simp only [bytes_eq, length_header, size, start, List.length_append,
    Bytes.length_flatMap (Bytes.length_ofNat 4)]
  omega

variable {L}

theorem entryReader_utf8 (h : L.isUtf8 = true) : L.entryReader = utf8Entry := by
  rw [entryReader, if_pos h]

theorem entryReader_utf16 (h : L.isUtf8 = false) : L.entryReader = utf16Entry := by
  rw [entryReader, h]
  rfl

variable {read : Bytes → Except CodecError String} {form : Form} {strings : List String}

/-- The chunk is found in front of whatever follows it. -/
theorem read_bytes (hL : L.Fits) (rest : Bytes) :
    Chunk.read (L.bytes ++ rest) =
      .ok ⟨stringPoolKind, L.headerSize, L.size, L.bytes ++ rest⟩ := by
  have hsize := hL.size_lt
  have hheader : 8 ≤ L.headerSize ∧ L.headerSize < 0x10000 ∧ L.headerSize ≤ L.bytes.length := by
    refine ⟨?_, hL.headerSize_lt, ?_⟩
    · rw [headerSize]
      omega
    · rw [length_bytes, size, start]
      omega
  have hbytes : L.bytes = Bytes.ofNat 2 stringPoolKind ++ (Bytes.ofNat 2 L.headerSize ++
      (Bytes.ofNat 4 L.bytes.length ++ L.content)) := by
    rw [length_bytes]
    rfl
  have hread := Chunk.read_of_eq (by decide) hheader hbytes (by rwa [length_bytes]) rest
  rwa [length_bytes] at hread

/-- The fields are found behind the size of the chunk. -/
theorem fields_bytes (hL : L.Fits) (rest : Bytes) :
    ∃ behind, fields ((L.bytes ++ rest).drop 8) =
      .ok ((L.places.length, L.isUtf8, L.start), behind) := by
  have hsize := hL.size_lt
  rw [size, start] at hsize
  have hcount := UInt32.toNat_ofNat_of_lt' (show L.places.length < UInt32.size by omega)
  have hstart := UInt32.toNat_ofNat_of_lt' (show L.start < UInt32.size by rw [start]; omega)
  have hflags : ((UInt32.ofNat L.flags).toNat / utf8Flag % 2 == 1) = L.isUtf8 := by
    rw [isUtf8, UInt32.toNat_ofNat', utf8Flag]
    congr 1
    omega
  have hdrop : (L.bytes ++ rest).drop 8 = L.content ++ rest := rfl
  rw [hdrop, content]
  simp only [List.append_assoc]
  refine ⟨L.headerEnd ++ (L.places.flatMap (Bytes.ofNat 4) ++ (L.between ++ (L.data ++ rest))), ?_⟩
  rw [fields, Reader.bind_ok (word_append _ _), Reader.bind_ok (word_append _ _),
    Reader.bind_ok (word_append _ _), Reader.bind_ok (word_append _ _), hcount, hstart, hflags]
  rfl

/-- A chunk is read as the strings that it holds. -/
theorem ofChunk_bytes (hread : Reads read form) (hL : L.Fits) (hentry : L.entryReader = read)
    (h : L.Holds form strings) (rest : Bytes) :
    ofChunk ⟨stringPoolKind, L.headerSize, L.size, L.bytes ++ rest⟩ =
      .ok ⟨strings.toArray⟩ := by
  have hsize := hL.size_lt
  obtain ⟨behind, hfields⟩ := fields_bytes hL rest
  have hdata : Bytes.skip? L.start ((L.bytes ++ rest).take L.size) = some L.data := by
    have hfront : (L.header ++ L.places.flatMap (Bytes.ofNat 4) ++ L.between).length = L.start := by
      simp only [List.length_append, length_header, start,
        Bytes.length_flatMap (Bytes.length_ofNat 4)]
    rw [List.take_left' L.length_bytes, Bytes.skip?_eq, length_bytes,
      if_pos (by rw [size]; omega), bytes_eq, ← List.append_assoc, ← List.append_assoc,
      List.drop_left' hfront]
  have hbody : Chunk.body ⟨stringPoolKind, L.headerSize, L.size, L.bytes ++ rest⟩ =
      L.places.flatMap (Bytes.ofNat 4) ++ (L.between ++ (L.data ++ rest)) := by
    rw [Chunk.body, bytes_eq, List.append_assoc, List.drop_left' L.length_header]
    simp only [List.append_assoc]
  have htexts := readStrings_of_storedAt hread (by rw [size] at hsize; omega) h
    (L.between ++ (L.data ++ rest))
  rw [← hbody, ← hentry] at htexts
  rw [ofChunk, Step.bind_ok _ hfields]
  simp only [hdata]
  exact Step.bind_ok _ htexts

/-- So the bytes of a chunk lead to the strings that it holds. -/
theorem decodesTo (hread : Reads read form) (hL : L.Fits) (hentry : L.entryReader = read)
    (h : L.Holds form strings) : L.DecodesTo strings := fun rest =>
  ⟨_, read_bytes hL rest, rfl, L.length_bytes.symm, ofChunk_bytes hread hL hentry h rest⟩

/-! ## Pools that are written -/

/-- The pool with one string behind the other, filled up to words. -/
def packed (flags : Nat) (entries : List Bytes) : Layout where
  styleCount := 0
  flags
  headerEnd := Bytes.ofNat 4 0
  places := offsets 0 entries
  between := []
  data := entries.flatten ++ padding entries.flatten.length

theorem size_packed (flags : Nat) (entries : List Bytes) :
    (packed flags entries).size = 28 + entries.length * 4 +
      (entries.flatten ++ padding entries.flatten.length).length := by
  simp only [packed, size, start, headerSize, Bytes.length_ofNat, length_offsets, List.length_nil]
  omega

/-- A pool that has room in its size fits. -/
theorem fits_packed {flags : Nat} {entries : List Bytes}
    (h : (packed flags entries).size < UInt32.size) : (packed flags entries).Fits :=
  ⟨show 28 < 0x10000 by omega, h⟩

/-- A pool with one string behind the other holds these strings. -/
theorem holds_packed {entries : List Bytes} (flags : Nat)
    (h : List.Forall₂ form strings entries) : (packed flags entries).Holds form strings :=
  storedAt_offsets h [] (padding entries.flatten.length)

theorem start_packed (flags : Nat) (entries : List Bytes) :
    (packed flags entries).start = poolHeaderSize + entries.length * 4 := by
  simp only [packed, start, headerSize, Bytes.length_ofNat, length_offsets, List.length_nil,
    poolHeaderSize]
  omega

/-- The written pool is the packed one in UTF-16. -/
theorem poolChunk_eq (strings : List String) :
    poolChunk strings =
      if (packed 0 (strings.map utf16Data)).size < UInt32.size then
        .ok (packed 0 (strings.map utf16Data)).bytes
      else .error .chunkTooLarge := by
  generalize hentries : strings.map utf16Data = entries
  have hcount : entries.length = strings.length := by rw [← hentries, List.length_map]
  -- What is written in front of the zeros.
  generalize hfront : Bytes.ofNat 4 strings.length ++ Bytes.ofNat 4 0 ++ Bytes.ofNat 4 0 ++
    Bytes.ofNat 4 (poolHeaderSize + strings.length * 4) ++ Bytes.ofNat 4 0 ++
    (offsets 0 entries).flatMap (Bytes.ofNat 4) ++ entries.flatten = front
  have hpadding : padding front.length = padding entries.flatten.length := by
    rw [← hfront, padding, padding]
    simp only [List.length_append, Bytes.length_ofNat, Bytes.length_flatMap (Bytes.length_ofNat 4),
      length_offsets, hcount]
    congr 1
    omega
  have hcontent : front ++ padding front.length = (packed 0 entries).content := by
    rw [hpadding, ← hfront, content, start_packed]
    simp only [packed, length_offsets, hcount, List.append_assoc, List.nil_append]
  have hsize : 8 + (packed 0 entries).content.length = (packed 0 entries).size := by
    rw [← length_bytes, bytes]
    simp only [List.length_append, Bytes.length_ofNat]
    omega
  simp only [poolChunk, chunk, hentries, hfront, hcontent, hsize]
  simp only [bytes, List.append_assoc]
  rfl

end Layout

end StringPool

end AppBundle.Xml.Binary
