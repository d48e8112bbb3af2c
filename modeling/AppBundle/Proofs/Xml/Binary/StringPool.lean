import AppBundle.Proofs.Text.Utf16
import AppBundle.Proofs.Xml.Binary.PoolLayout
import AppBundle.Proofs.Xml.Binary.StringTable

/-!
# The written strings are read back

A string of the pool is its length, its units and a zero.  The length says how
many units to take, so nothing after them is looked at (`utf16Entry_append`), and
the pool is one that holds strings in this form (`ofChunk_append`).  So a walk
goes on behind it with the strings (`leads_poolChunk`); the resource map is read
back the same way (`leads_resourceMapChunk`).

No length needs a check of its own.  A chunk fits a 32-bit size, and that bounds
every offset, every string and the number of strings.
-/

namespace AppBundle.Xml.Binary

open Text

/-! ## Single strings -/

/-- Units are read back from their bytes. -/
theorem units_append {us : List Nat} (hus : ∀ u ∈ us, u < 0x10000) (rest : Bytes) :
    units (us.flatMap (Bytes.ofNat 2) ++ rest) = us ++ units rest := by
  induction us with
  | nil => rfl
  | cons u us ih =>
    have hu := hus u List.mem_cons_self
    have hunit : (UInt8.ofNat u).toNat + 0x100 * (UInt8.ofNat (u / 256)).toNat = u := by
      simp only [UInt8.toNat_ofNat']
      omega
    rw [List.flatMap_cons, List.append_assoc]
    show _ :: units (us.flatMap (Bytes.ofNat 2) ++ rest) = _
    rw [hunit, ih fun v hv => hus v (List.mem_cons_of_mem _ hv)]
    rfl

/-- The units of a text, followed by anything, are read back as the text. -/
theorem utf16Text_append (text : String) (more : List Nat) :
    utf16Text (Utf16.encode text.toList).length (Utf16.encode text.toList ++ more) = .ok text := by
  simp only [utf16Text, List.take_left, Nat.lt_irrefl, if_false, Utf16.decode_encode,
    String.ofList_toList]

/-- The units in front of a string say how long it is. -/
def lengthUnits (length : Nat) : List Nat :=
  if length < 0x8000 then [length]
  else [0x8000 + length / 0x10000 % 0x8000, length % 0x10000]

theorem utf16Data_eq (text : String) :
    utf16Data text = (lengthUnits (Utf16.encode text.toList).length ++
      Utf16.encode text.toList ++ [0]).flatMap (Bytes.ofNat 2) := rfl

theorem lt_of_mem_lengthUnits {length u : Nat} (h : u ∈ lengthUnits length) : u < 0x10000 := by
  simp only [lengthUnits] at h
  split at h
  · simp only [List.mem_singleton] at h
    omega
  · simp only [List.mem_cons, List.not_mem_nil, or_false] at h
    omega

/-- A string is read back from its length and its units. -/
theorem utf16Units_append {text : String} (more : List Nat)
    (hlen : (Utf16.encode text.toList).length < 0x80000000) :
    utf16Units (lengthUnits (Utf16.encode text.toList).length ++
      (Utf16.encode text.toList ++ more)) = .ok text := by
  have htext := utf16Text_append text more
  generalize (Utf16.encode text.toList).length = n at hlen htext
  by_cases hn : n < 0x8000
  · simp only [lengthUnits, hn, if_true, List.cons_append, List.nil_append]
    simp only [utf16Units, hn, if_true, htext]
  · have hhigh : ¬ 0x8000 + n / 0x10000 % 0x8000 < 0x8000 := by omega
    have hvalue : (0x8000 + n / 0x10000 % 0x8000 - 0x8000) * 0x10000 + n % 0x10000 = n := by omega
    simp only [lengthUnits, hn, if_false, List.cons_append, List.nil_append]
    simp only [utf16Units, hhigh, if_false, hvalue, htext]

/-- A string is read back from its pool data, whatever follows it. -/
theorem utf16Entry_append {text : String} (rest : Bytes)
    (hlen : (Utf16.encode text.toList).length < 0x80000000) :
    utf16Entry (utf16Data text ++ rest) = .ok text := by
  have hus : ∀ u ∈ lengthUnits (Utf16.encode text.toList).length ++
      Utf16.encode text.toList ++ [0], u < 0x10000 := by
    intro u hu
    simp only [List.mem_append, List.mem_singleton] at hu
    rcases hu with (hu | hu) | rfl
    · exact lt_of_mem_lengthUnits hu
    · exact Utf16.lt_of_mem_encode hu
    · decide
  rw [utf16Entry, utf16Data_eq, units_append hus, List.append_assoc, List.append_assoc]
  exact utf16Units_append _ hlen

/-- The pool data of a string takes two bytes for each unit, and more. -/
theorem two_mul_length_lt (text : String) :
    2 * (Utf16.encode text.toList).length < (utf16Data text).length := by
  rw [utf16Data_eq, Bytes.length_flatMap (Bytes.length_ofNat 2)]
  simp only [List.length_append, List.length_cons, List.length_nil]
  omega

/-- A string with its length in units, as it is written. -/
def Utf16Form : StringPool.Form := fun text entry => entry = utf16Data text

theorem reads_utf16Form : StringPool.Reads utf16Entry Utf16Form := by
  rintro text entry rfl hsize rest
  have hlen := two_mul_length_lt text
  exact utf16Entry_append rest (by simp only [UInt32.size] at hsize; omega)

/-! ## The pool -/

/-- The pool that is written for these strings. -/
abbrev writtenPool (strings : List String) : StringPool.Layout :=
  .packed 0 (strings.map utf16Data)

theorem isUtf8_writtenPool (strings : List String) : (writtenPool strings).isUtf8 = false := by
  simp [StringPool.Layout.isUtf8, StringPool.Layout.packed]

theorem holds_writtenPool (strings : List String) :
    (writtenPool strings).Holds Utf16Form strings :=
  StringPool.Layout.holds_packed 0
    (List.forall₂_map_right_iff.2 (List.forall₂_same.2 fun _ _ => rfl))

theorem poolChunk_ok_iff {strings : List String} {bs : Bytes} :
    poolChunk strings = .ok bs ↔ (writtenPool strings).Fits ∧ (writtenPool strings).bytes = bs := by
  rw [StringPool.Layout.poolChunk_eq]
  constructor
  · intro h
    split at h
    · rename_i hsize
      exact ⟨StringPool.Layout.fits_packed hsize, Except.ok.inj h⟩
    · cases h
  · rintro ⟨hfits, rfl⟩
    exact if_pos hfits.size_lt

/-- A written pool has so few strings that each has an index. -/
theorem length_of_poolChunk {strings : List String} {bs : Bytes} (h : poolChunk strings = .ok bs) :
    28 + (strings.length * 4 + (strings.map utf16Data).flatten.length) ≤ bs.length ∧
      bs.length < UInt32.size := by
  obtain ⟨hfits, rfl⟩ := poolChunk_ok_iff.1 h
  refine ⟨?_, by rw [StringPool.Layout.length_bytes]; exact hfits.size_lt⟩
  rw [StringPool.Layout.length_bytes, StringPool.Layout.size_packed, List.length_map,
    List.length_append]
  omega

/-- A written pool is read back. -/
theorem ofChunk_append {strings : List String} {bs : Bytes} (h : poolChunk strings = .ok bs)
    (rest : Bytes) :
    StringPool.ofChunk ⟨stringPoolKind, poolHeaderSize, bs.length, bs ++ rest⟩ =
      .ok ⟨strings.toArray⟩ := by
  obtain ⟨hfits, rfl⟩ := poolChunk_ok_iff.1 h
  rw [StringPool.Layout.length_bytes]
  exact StringPool.Layout.ofChunk_bytes reads_utf16Form hfits
    (StringPool.Layout.entryReader_utf16 (isUtf8_writtenPool strings)) (holds_writtenPool strings)
    rest

/-- A written pool leads to its strings. -/
theorem leads_poolChunk {t : StringTable} {bs : Bytes} (h : poolChunk t.strings = .ok bs)
    (s : State) : Leads bs s { s with pool := some t.pool } := by
  obtain ⟨hlen, -⟩ := length_of_poolChunk h
  refine leads_chunk (by decide) ⟨by decide, by decide, ?_⟩ h fun rest => ?_
  · simp only [poolHeaderSize]
    omega
  · rw [State.step_stringPool rfl, ofChunk_append h rest]
    rfl

/-- A table whose pool can be written is small. -/
theorem small_of_poolChunk {t : StringTable} {bs : Bytes} (h : poolChunk t.strings = .ok bs) :
    t.Small := by
  obtain ⟨hlen, hsize⟩ := length_of_poolChunk h
  simp only [StringTable.Small, noIndexNat, UInt32.size] at hsize ⊢
  omega

/-! ## The resource map -/

/-- Words are read back from their bytes. -/
theorem words_append {ids : List Word} :
    words (ids.flatMap fun id => Bytes.ofNat 4 id.toNat) = ids := by
  induction ids with
  | nil => rfl
  | cons id ids ih =>
    have hword : UInt32.ofNat (Bytes.toNat (Bytes.ofNat 4 id.toNat)) = id := by
      rw [Bytes.toNat_ofNat_of_lt id.toNat_lt, UInt32.ofNat_toNat]
    rw [List.flatMap_cons]
    show UInt32.ofNat (Bytes.toNat (Bytes.ofNat 4 id.toNat)) ::
      words (ids.flatMap fun id => Bytes.ofNat 4 id.toNat) = _
    rw [hword, ih]

/-- A written resource map leads to the resource ids; where none is written there are none. -/
theorem leads_resourceMapChunk {t : StringTable} {bs : Bytes}
    (h : resourceMapChunk t.identified = .ok bs) {s : State} (hs : s.resourceIds = #[]) :
    Leads bs s { s with resourceIds := t.resourceIds } := by
  simp only [resourceMapChunk] at h
  split at h
  · rename_i hempty
    cases h
    have hids : t.resourceIds = s.resourceIds := by
      rw [hs, StringTable.resourceIds, List.isEmpty_iff.1 hempty]
      rfl
    rw [hids]
    exact Leads.nil s
  · obtain ⟨hbs, -⟩ := chunk_eq h
    have hlen : 8 ≤ bs.length := by
      rw [length_of_chunk h]
      omega
    refine leads_chunk (by decide) ⟨by decide, by decide, hlen⟩ h fun rest => ?_
    have hpayload : Chunk.payload ⟨resourceMapKind, 8, bs.length, bs ++ rest⟩ =
        (t.identified.map (·.id)).flatMap fun id => Bytes.ofNat 4 id.toNat := by
      have hzeros := padding_of_dvd (Nat.dvd_mul_left 4 t.identified.length)
      rw [Bytes.length_flatMap fun name => Bytes.length_ofNat 4 _, hzeros] at hbs
      rw [Chunk.payload, List.take_left, List.flatMap_map]
      generalize bs.length = n at hbs
      rw [hbs, List.append_nil]
      rfl
    rw [State.step_resourceMap rfl, hpayload, words_append]
    rfl

end AppBundle.Xml.Binary
