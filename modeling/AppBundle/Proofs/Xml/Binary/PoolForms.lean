import AppBundle.Proofs.Xml.Binary.StringPool
import Mathlib.Data.String.Basic

/-!
# Both forms of a pool hold the same strings

Writers of documents use one of two forms for the strings of a pool.  In UTF-8 a
string has two lengths in front, of one or two bytes each, and may be no longer
than `0x7fff` bytes; in UTF-16 it has one, of one or two units.

Each form is read back by the reader that the flags of the pool ask for
(`reads_utf8Form`, `reads_utf16Form`), so wherever the strings stand the pool is
read as these strings, in both forms (`decodesTo_forms`).
-/

namespace AppBundle.Xml.Binary

open StringPool Text

/-! ## Strings in UTF-8 -/

/-- The ways to write a length in front of a string in UTF-8. -/
inductive LengthForm (length : Nat) : Bytes → Prop where
  /-- A small length is one byte. -/
  | short (h : length < 0x80) : LengthForm length [UInt8.ofNat length]
  /-- Any length may be two bytes, the first of them with the high bit. -/
  | long (h : length < 0x8000) :
    LengthForm length [UInt8.ofNat (0x80 + length / 0x100), UInt8.ofNat length]

/-- The ways to write a string in UTF-8: the number of its characters, the number of
its bytes, the bytes and a zero.  No reader looks at the number of characters, and
writers differ in what they count. -/
inductive Utf8Form (text : String) : Bytes → Prop where
  | mk {count : Nat} {countBytes sizeBytes : Bytes} (hcount : LengthForm count countBytes)
    (hsize : LengthForm text.utf8ByteSize sizeBytes) :
    Utf8Form text (countBytes ++ (sizeBytes ++ (text.toUTF8.data.toList ++ [0])))

/-- The shortest way to write a length. -/
def lengthBytes (length : Nat) : Bytes :=
  if length < 0x80 then [UInt8.ofNat length]
  else [UInt8.ofNat (0x80 + length / 0x100), UInt8.ofNat length]

/-- A string in UTF-8, with the shortest lengths. -/
def utf8Data (text : String) : Bytes :=
  lengthBytes text.length ++ (lengthBytes text.utf8ByteSize ++ (text.toUTF8.data.toList ++ [0]))

/-- A length is read back, whatever follows it. -/
theorem LengthForm.utf8Length_append {length : Nat} {bs : Bytes} (h : LengthForm length bs)
    (rest : Bytes) : utf8Length (bs ++ rest) = .ok (length, rest) := by
  cases h with
  | short h =>
    have hbyte : (UInt8.ofNat length).toNat = length :=
      UInt8.toNat_ofNat_of_lt' (by simp only [UInt8.size]; omega)
    simp only [List.cons_append, List.nil_append, utf8Length, hbyte, h, if_true]
  | long h =>
    have hhigh : (UInt8.ofNat (0x80 + length / 0x100)).toNat = 0x80 + length / 0x100 :=
      UInt8.toNat_ofNat_of_lt' (by simp only [UInt8.size]; omega)
    have hlow : (UInt8.ofNat length).toNat = length % 0x100 := UInt8.toNat_ofNat'
    have hbit : ¬ 0x80 + length / 0x100 < 0x80 := by omega
    have hlength : (0x80 + length / 0x100 - 0x80) * 0x100 + length % 0x100 = length := by omega
    simp only [List.cons_append, List.nil_append, utf8Length, hhigh, hlow, hbit, if_false, hlength]

/-- A text is read back from its bytes. -/
theorem utf8Text_toUTF8 (text : String) : utf8Text text.toUTF8.data.toList = .ok text := by
  have hbytes : String.fromUTF8? ⟨text.toUTF8.data.toList.toArray⟩ = some text :=
    dif_pos text.isValidUTF8
  rw [utf8Text, hbytes]

/-- Strings in UTF-8 are read back, whatever follows them. -/
theorem reads_utf8Form : Reads utf8Entry Utf8Form := by
  rintro text entry ⟨hcount, hsize⟩ - rest
  have hlength : text.toUTF8.data.toList.length = text.utf8ByteSize := String.size_toByteArray
  have hsplit := Bytes.split?_append text.toUTF8.data.toList ([0] ++ rest)
  rw [hlength] at hsplit
  simp only [List.append_assoc]
  rw [utf8Entry, Step.bind_ok _ (hcount.utf8Length_append _)]
  simp only
  rw [Step.bind_ok _ (hsize.utf8Length_append _)]
  simp only [hsplit]
  exact utf8Text_toUTF8 text

theorem lengthForm_lengthBytes {length : Nat} (h : length < 0x8000) :
    LengthForm length (lengthBytes length) := by
  rw [lengthBytes]
  split
  · exact .short ‹_›
  · exact .long h

/-- Every character takes a byte. -/
theorem length_le_utf8Len (cs : List Char) : cs.length ≤ String.utf8Len cs := by
  induction cs with
  | nil => exact Nat.zero_le _
  | cons c cs ih =>
    have hc := c.utf8Size_pos
    rw [String.utf8Len_cons, List.length_cons]
    omega

theorem length_le_utf8ByteSize (text : String) : text.length ≤ text.utf8ByteSize := by
  have hle := length_le_utf8Len text.toList
  rwa [String.length_toList, ← String.utf8ByteSize_ofList, String.ofList_toList] at hle

/-- A string that is not too long can be written in UTF-8. -/
theorem utf8Form_utf8Data {text : String} (h : text.utf8ByteSize ≤ 0x7fff) :
    Utf8Form text (utf8Data text) :=
  have hle := length_le_utf8ByteSize text
  .mk (lengthForm_lengthBytes (by omega)) (lengthForm_lengthBytes (by omega))

/-! ## Pools -/

/-- The pool of these strings in UTF-8. -/
abbrev utf8Pool (strings : List String) : Layout := .packed utf8Flag (strings.map utf8Data)

theorem isUtf8_utf8Pool (strings : List String) : (utf8Pool strings).isUtf8 = true := by
  simp [Layout.isUtf8, Layout.packed, utf8Flag]

theorem holds_utf8Pool {strings : List String}
    (h : ∀ text ∈ strings, text.utf8ByteSize ≤ 0x7fff) :
    (utf8Pool strings).Holds Utf8Form strings :=
  Layout.holds_packed utf8Flag (List.forall₂_map_right_iff.2
    (List.forall₂_same.2 fun text htext => utf8Form_utf8Data (h text htext)))

/-- Strings that are not too long are read back from their pool in UTF-8 and from their
pool in UTF-16 alike, when the pools fit 32-bit sizes.  So are strings that stand in
either form anywhere in a pool, at the places that it lists.  A single string in UTF-16
is read back when its length takes less than 32 bits. -/
theorem decodesTo_forms (strings : List String) :
    ((∀ text ∈ strings, text.utf8ByteSize ≤ 0x7fff) → (utf8Pool strings).size < UInt32.size →
      (writtenPool strings).size < UInt32.size →
        (utf8Pool strings).DecodesTo strings ∧ (writtenPool strings).DecodesTo strings) ∧
    (∀ L : Layout, L.Fits → L.isUtf8 = true → L.Holds Utf8Form strings →
      L.DecodesTo strings) ∧
    (∀ L : Layout, L.Fits → L.isUtf8 = false → L.Holds Utf16Form strings →
      L.DecodesTo strings) ∧
    ∀ text rest, (Utf16.encode text.toList).length < 0x80000000 →
      utf16Entry (utf16Data text ++ rest) = .ok text := by
  have hutf8 : ∀ L : Layout, L.Fits → L.isUtf8 = true → L.Holds Utf8Form strings →
      L.DecodesTo strings :=
    fun L hL hflag => Layout.decodesTo reads_utf8Form hL (Layout.entryReader_utf8 hflag)
  have hutf16 : ∀ L : Layout, L.Fits → L.isUtf8 = false → L.Holds Utf16Form strings →
      L.DecodesTo strings :=
    fun L hL hflag => Layout.decodesTo reads_utf16Form hL (Layout.entryReader_utf16 hflag)
  refine ⟨fun hshort hsize hsize' => ⟨?_, ?_⟩, hutf8, hutf16, fun text => utf16Entry_append⟩
  · exact hutf8 _ (Layout.fits_packed hsize) (isUtf8_utf8Pool strings) (holds_utf8Pool hshort)
  · exact hutf16 _ (Layout.fits_packed hsize') (isUtf8_writtenPool strings)
      (holds_writtenPool strings)

/-- An empty string, a surrogate pair, and a length that takes two bytes. -/
def mixedStrings : List String := ["", "é😀", String.ofList (List.replicate 0x80 'x')]

theorem decodesTo_forms_mixedStrings :
    (∀ text ∈ mixedStrings, text.utf8ByteSize ≤ 0x7fff) ∧
      (utf8Pool mixedStrings).size < UInt32.size ∧ (writtenPool mixedStrings).size < UInt32.size ∧
        (utf8Pool mixedStrings).DecodesTo mixedStrings ∧
          (writtenPool mixedStrings).DecodesTo mixedStrings :=
  have hshort : ∀ text ∈ mixedStrings, text.utf8ByteSize ≤ 0x7fff := by decide +kernel
  have hsize : (utf8Pool mixedStrings).size < UInt32.size := by decide +kernel
  have hsize' : (writtenPool mixedStrings).size < UInt32.size := by decide +kernel
  ⟨hshort, hsize, hsize', (decodesTo_forms mixedStrings).1 hshort hsize hsize'⟩

end AppBundle.Xml.Binary
