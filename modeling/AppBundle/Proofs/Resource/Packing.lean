import AppBundle.Proofs.Resource.Table
import Mathlib.Data.Prod.Lex

/-!
# Ids are packed in order

The parts of an id stand side by side in its word: a shift brings a part to its
place and a mask takes it out again (`Id.word_eq_or`, `Id.parts_eq`).  So the
numbers that are in range, the words whose upper two bytes are not zero, and the
ids themselves are three forms of one thing.

The part that counts most stands highest, so ids are ordered by their packages,
then by their types, then by their entries (`Id.lt_iff_parts`).
-/

namespace AppBundle.Resource

/-! ## Shifts and masks -/

theorem shiftRight_24 (word : UInt32) : word >>> 24 = word / 0x1000000 := by
  apply UInt32.toNat_inj.1
  simp only [UInt32.toNat_shiftRight, UInt32.toNat_div, UInt32.reduceToNat,
    Nat.shiftRight_eq_div_pow, Nat.reduceMod, Nat.reducePow]

theorem shiftRight_16_and (word : UInt32) : word >>> 16 &&& 0xff = word / 0x10000 % 0x100 := by
  apply UInt32.toNat_inj.1
  simp only [UInt32.toNat_and, UInt32.toNat_shiftRight, UInt32.toNat_mod, UInt32.toNat_div,
    UInt32.reduceToNat, Nat.shiftRight_eq_div_pow]
  exact Nat.and_two_pow_sub_one_eq_mod _ 8

theorem and_ffff (word : UInt32) : word &&& 0xffff = word % 0x10000 := by
  apply UInt32.toNat_inj.1
  simp only [UInt32.toNat_and, UInt32.toNat_mod, UInt32.reduceToNat]
  exact Nat.and_two_pow_sub_one_eq_mod _ 16

namespace Id

variable {package type entry word : UInt32} {i j : Id}

/-! ## Parts -/

/-- The package, the type and the entry of an id, in the order in which they count. -/
def parts (i : Id) : UInt32 ×ₗ UInt32 ×ₗ UInt32 := toLex (i.package, toLex (i.type, i.entry))

theorem parts_eq_iff : i.parts = toLex (package, toLex (type, entry)) ↔
    i.package = package ∧ i.type = type ∧ i.entry = entry := by
  simp only [parts, toLex_inj, Prod.mk.injEq]

/-- The parts are masked out of the word after a shift. -/
theorem parts_eq (i : Id) :
    i.parts = toLex (i.word >>> 24, toLex (i.word >>> 16 &&& 0xff, i.word &&& 0xffff)) := by
  rw [shiftRight_24, shiftRight_16_and, and_ffff]
  rfl

/-- The word is put together from the parts, each shifted to its place. -/
theorem word_eq_or (i : Id) : i.word = i.package <<< 24 ||| i.type <<< 16 ||| i.entry := by
  obtain ⟨hword, hpackage, htype, hentry⟩ := i.toNat_word
  have hpackageShift : (i.package <<< 24).toNat = 0x1000000 * i.package.toNat := by
    simp only [UInt32.toNat_shiftLeft, UInt32.reduceToNat, Nat.shiftLeft_eq, Nat.reduceMod]
    omega
  have htypeShift : (i.type <<< 16).toNat = 0x10000 * i.type.toNat := by
    simp only [UInt32.toNat_shiftLeft, UInt32.reduceToNat, Nat.shiftLeft_eq, Nat.reduceMod]
    omega
  -- What stands below a power of two does not meet what stands above it.
  have hlower : 0x10000 * i.type.toNat + i.entry.toNat = 0x10000 * i.type.toNat ||| i.entry.toNat :=
    Nat.two_pow_add_eq_or_of_lt (i := 16) hentry _
  have hupper : 0x1000000 * i.package.toNat + (0x10000 * i.type.toNat + i.entry.toNat) =
      0x1000000 * i.package.toNat ||| (0x10000 * i.type.toNat + i.entry.toNat) :=
    Nat.two_pow_add_eq_or_of_lt (i := 24) (by omega) _
  apply UInt32.toNat_inj.1
  rw [UInt32.toNat_or, UInt32.toNat_or, hpackageShift, htypeShift, hword, hupper, hlower,
    Nat.or_assoc]

/-! ## Words -/

/-- A word makes an id when none of its upper two bytes is zero. -/
theorem ofWord?_ok_iff :
    (∃ i, ofWord? word = .ok i) ↔ word >>> 24 ≠ 0 ∧ word >>> 16 &&& 0xff ≠ 0 := by
  have hword := word.toNat_lt
  rw [ofWord?, compose?_ok_iff, shiftRight_24, shiftRight_16_and, ne_eq, ne_eq,
    ← UInt32.toNat_inj, ← UInt32.toNat_inj]
  simp only [UInt32.toNat_div, UInt32.toNat_mod, UInt32.reduceToNat]
  omega

/-- The id of a word has that word. -/
theorem ofWord?_eq_ok_iff : ofWord? word = .ok i ↔ i.word = word := by
  constructor
  · intro h
    obtain ⟨hpackage, htype, hentry⟩ := parts_of_compose? h
    apply UInt32.toNat_inj.1
    rw [i.toNat_word.1, hpackage, htype, hentry]
    simp only [UInt32.toNat_div, UInt32.toNat_mod, UInt32.reduceToNat]
    omega
  · rintro rfl
    exact i.compose?_parts

/-! ## Order -/

/-- Ids are ordered as their parts are, one after the other. -/
theorem lt_iff_parts : i < j ↔ i.parts < j.parts := by
  obtain ⟨hi, hipackage, hitype, hientry⟩ := i.toNat_word
  obtain ⟨hj, hjpackage, hjtype, hjentry⟩ := j.toNat_word
  have hlt : i < j ↔ i.word.toNat < j.word.toNat := UInt32.lt_iff_toNat_lt
  simp only [parts, Prod.Lex.toLex_lt_toLex, UInt32.lt_iff_toNat_lt, ← UInt32.toNat_inj]
  rw [hlt, hi, hj]
  omega

/-! ## Ids -/

/-- Three numbers make an id when they are in range, and a word when its upper two
bytes are not zero; the id has those numbers for its parts and that word for its word,
and every id is made in both ways.  Ids are ordered as their parts are. -/
theorem packing_exact (package type entry word : UInt32) (i j : Id) :
    ((∃ k, compose? package type entry = .ok k) ↔
      (1 ≤ package ∧ package ≤ 255) ∧ (1 ≤ type ∧ type ≤ 255) ∧ entry ≤ 65535) ∧
    (compose? package type entry = .ok i ↔ i.parts = toLex (package, toLex (type, entry))) ∧
    ((∃ k, ofWord? word = .ok k) ↔ word >>> 24 ≠ 0 ∧ word >>> 16 &&& 0xff ≠ 0) ∧
    (ofWord? word = .ok i ↔ i.word = word) ∧
    i.parts = toLex (i.word >>> 24, toLex (i.word >>> 16 &&& 0xff, i.word &&& 0xffff)) ∧
    i.word = i.package <<< 24 ||| i.type <<< 16 ||| i.entry ∧
    (i < j ↔ i.parts < j.parts) :=
  ⟨compose?_ok_iff, compose?_eq_ok_iff.trans parts_eq_iff.symm, ofWord?_ok_iff, ofWord?_eq_ok_iff,
    i.parts_eq, i.word_eq_or, lt_iff_parts⟩

end Id

end AppBundle.Resource
