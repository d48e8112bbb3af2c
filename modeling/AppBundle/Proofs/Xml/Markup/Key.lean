import AppBundle.Xml.Markup.Token

/-!
# Keys

The key of a tag or an attribute is a plain name, perhaps behind a prefix that is
one as well.  Plain names are made of letters, digits and three other characters,
so nothing in a key ends it: it has no blanks, no quotation marks and no brackets.
-/

namespace AppBundle.Xml.Markup

open Text

/-- Whether the character may stand in a plain name, behind the first one. -/
def isNameChar (c : Char) : Bool :=
  c.isAlphanum || c == '-' || c == '_' || c == '.'

/-- Whether the text is a plain name: a letter and then letters, digits, hyphens,
underscores and periods, all ASCII. -/
def isPlainName (name : String) : Bool :=
  match name.toList with
  | [] => false
  | c :: cs => c.isAlpha && cs.all isNameChar

/-- Whether the character stands for itself in the key of a tag or an attribute. -/
def isKeyChar (c : Char) : Bool := isNameChar c || c == ':'

/-- The text is the key of a tag or an attribute: a name, perhaps with a prefix. -/
structure IsKey (key : String) : Prop where
  /-- There is a name. -/
  ne_nil : key.toList ≠ []
  /-- The characters of it stand for themselves. -/
  plain : ∀ c ∈ key.toList, isKeyChar c = true

section Names

variable {name pfx : String}

theorem isNameChar_of_mem (h : isPlainName name = true) {c : Char} (hc : c ∈ name.toList) :
    isNameChar c = true := by
  rw [isPlainName] at h
  split at h
  · cases h
  · rename_i first cs hlist
    rw [Bool.and_eq_true, List.all_eq_true] at h
    rw [hlist, List.mem_cons] at hc
    rcases hc with rfl | hc
    · simp [isNameChar, Char.isAlphanum, h.1]
    · exact h.2 c hc

theorem colon_not_mem (h : isPlainName name = true) : ':' ∉ name.toList := by
  intro hmem
  have hchar := isNameChar_of_mem h hmem
  revert hchar
  decide

theorem ne_empty_of_isPlainName (h : isPlainName name = true) : name ≠ "" := by
  rintro rfl
  cases h

theorem IsKey.bare (h : isPlainName name = true) : IsKey name where
  ne_nil hnil := ne_empty_of_isPlainName h (String.toList_eq_nil_iff.1 hnil)
  plain c hc := by
    rw [isKeyChar, isNameChar_of_mem h hc]
    rfl

theorem IsKey.prefixed (hpfx : isPlainName pfx = true) (hname : isPlainName name = true) :
    IsKey (pfx ++ ":" ++ name) where
  ne_nil := by simp
  plain c hc := by
    simp only [String.toList_append, List.mem_append] at hc
    rcases hc with (hc | hc) | hc
    · exact (IsKey.bare hpfx).plain c hc
    · rw [List.mem_singleton.1 hc]
      rfl
    · exact (IsKey.bare hname).plain c hc

end Names

/-! ## Characters -/

theorem ne_of_isKeyChar {c d : Char} (hc : isKeyChar c = true) (hd : isKeyChar d = false) :
    c ≠ d := by
  rintro rfl
  rw [hc] at hd
  cases hd

theorem isMarkupBlank_of_isKeyChar {c : Char} (h : isKeyChar c = true) :
    isMarkupBlank c = false := by
  simp only [isMarkupBlank, Bool.or_eq_false_iff, beq_eq_false_iff_ne]
  exact ⟨⟨⟨ne_of_isKeyChar h (by decide), ne_of_isKeyChar h (by decide)⟩,
    ne_of_isKeyChar h (by decide)⟩, ne_of_isKeyChar h (by decide)⟩

theorem isQuote_of_isKeyChar {c : Char} (h : isKeyChar c = true) : isQuote c = false := by
  simp only [isQuote, Bool.or_eq_false_iff, beq_eq_false_iff_ne]
  exact ⟨ne_of_isKeyChar h (by decide), ne_of_isKeyChar h (by decide)⟩

theorem inKey_of_isKeyChar {c : Char} (h : isKeyChar c = true) : inKey c = true := by
  rw [inKey, isMarkupBlank_of_isKeyChar h, bne_iff_ne.2 (ne_of_isKeyChar h (by decide))]
  rfl

end AppBundle.Xml.Markup
