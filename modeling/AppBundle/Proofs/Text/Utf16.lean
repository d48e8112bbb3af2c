import AppBundle.Text.Utf16

/-!
# UTF-16 is read back

A character is never a surrogate, so a unit below `0x10000` stands for itself,
and the two halves of a pair give back the offset of a higher character
(`decode_encodeChar_append`).  `decode_encode` puts the characters together.
-/

namespace AppBundle.Text.Utf16

/-- No character has the number of a surrogate. -/
theorem not_surrogate (c : Char) :
    ¬ IsLeading c.toNat ∧ ¬ IsTrailing c.toNat ∧ c.toNat < 0x110000 := by
  have hvalid : c.toNat < 0xd800 ∨ 0xdfff < c.toNat ∧ c.toNat < 0x110000 := c.valid
  simp only [IsLeading, IsTrailing]
  omega

/-- The two halves of a pair name the character. -/
theorem pair_halves {c : Char} (hc : 0x10000 ≤ c.toNat) :
    pair (0xd800 + (c.toNat - 0x10000) / 0x400) (0xdc00 + (c.toNat - 0x10000) % 0x400) = c := by
  have hsum : 0x10000 + (0xd800 + (c.toNat - 0x10000) / 0x400 - 0xd800) * 0x400 +
      (0xdc00 + (c.toNat - 0x10000) % 0x400 - 0xdc00) = c.toNat := by omega
  rw [pair, hsum, Char.ofNat_toNat]

/-- The units of a character are read back as that character. -/
theorem decode_encodeChar_append (c : Char) (us : List Nat) :
    decode (encodeChar c ++ us) = (decode us).map (c :: ·) := by
  obtain ⟨hleading, htrailing, hmax⟩ := not_surrogate c
  by_cases hc : c.toNat < 0x10000
  · simp only [encodeChar, hc, if_true, List.cons_append, List.nil_append]
    rw [decode.eq_def (c.toNat :: us)]
    simp only [hleading, htrailing, if_false, Char.ofNat_toNat]
  · have hl : IsLeading (0xd800 + (c.toNat - 0x10000) / 0x400) := by
      simp only [IsLeading]
      omega
    have ht : IsTrailing (0xdc00 + (c.toNat - 0x10000) % 0x400) := by
      simp only [IsTrailing]
      omega
    simp only [encodeChar, hc, if_false, List.cons_append, List.nil_append]
    rw [decode, if_pos hl]
    simp only [ht, if_true, pair_halves (Nat.le_of_not_lt hc)]

/-- A text is read back from its units. -/
theorem decode_encode (cs : List Char) : decode (encode cs) = some cs := by
  induction cs with
  | nil => rfl
  | cons c cs ih =>
    rw [encode, List.flatMap_cons, decode_encodeChar_append, ← encode, ih]
    rfl

/-- A unit takes 16 bits. -/
theorem lt_of_mem_encode {cs : List Char} {u : Nat} (h : u ∈ encode cs) : u < 0x10000 := by
  obtain ⟨c, -, hu⟩ := List.mem_flatMap.1 h
  have hmax := (not_surrogate c).2.2
  simp only [encodeChar] at hu
  split at hu
  · simp only [List.mem_singleton] at hu
    omega
  · simp only [List.mem_cons, List.not_mem_nil, or_false] at hu
    omega

end AppBundle.Text.Utf16
