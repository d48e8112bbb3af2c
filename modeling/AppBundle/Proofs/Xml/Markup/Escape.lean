import AppBundle.Proofs.Text.Span
import AppBundle.Xml.Markup.Escape

/-!
# Escaped text

Escaping writes a character as it is or by a name (`escapeChar_cases`).  So
escaped text has none of the characters that end a value, a tag or a run of text
(`not_mem_escaped`), it begins and ends where the text does as far as blanks go
(`trimBy_escaped`), and it is read back as the text (`unescape?_escaped`).
-/

namespace AppBundle.Xml.Markup

open Text

/-- The characters that have names in markup. -/
def namedChars : List Char := ['<', '>', '&', '\'', '"']

/-- A character is escaped as itself, or by a name that stands for it. -/
theorem escapeChar_cases (c : Char) :
    (escapeChar c = [c] ∧ c ∉ namedChars) ∨
      ∃ name, escapeChar c = '&' :: (name ++ [';']) ∧ reference? name = some c ∧
        ∀ d ∈ name, d.isAlphanum = true := by
  unfold escapeChar
  split
  · exact .inr ⟨['l', 't'], rfl, rfl, List.all_eq_true.1 rfl⟩
  · exact .inr ⟨['g', 't'], rfl, rfl, List.all_eq_true.1 rfl⟩
  · exact .inr ⟨['a', 'm', 'p'], rfl, rfl, List.all_eq_true.1 rfl⟩
  · exact .inr ⟨['a', 'p', 'o', 's'], rfl, rfl, List.all_eq_true.1 rfl⟩
  · exact .inr ⟨['q', 'u', 'o', 't'], rfl, rfl, List.all_eq_true.1 rfl⟩
  · exact .inl ⟨rfl, by simp_all [namedChars]⟩

theorem toList_escape (text : String) : (escape text).toList = text.toList.flatMap escapeChar :=
  String.toList_ofList

/-! ## Characters -/

/-- No bracket and no quotation mark is in escaped text. -/
theorem not_mem_escaped {c : Char} (hc : c ∈ ['<', '>', '\'', '"']) (cs : List Char) :
    c ∉ cs.flatMap escapeChar := by
  intro hmem
  obtain ⟨d, -, hd⟩ := List.mem_flatMap.1 hmem
  rcases escapeChar_cases d with ⟨hself, hnamed⟩ | ⟨name, hself, -, hname⟩
  · rw [hself, List.mem_singleton] at hd
    subst hd
    exact hnamed (by simp [namedChars] at hc ⊢; grind)
  · rw [hself, List.mem_cons, List.mem_append, List.mem_singleton] at hd
    rcases hd with rfl | hd | rfl
    · revert hc
      decide
    · have halpha := hname c hd
      simp only [List.mem_cons, List.not_mem_nil, or_false] at hc
      rcases hc with rfl | rfl | rfl | rfl <;> cases halpha
    · revert hc
      decide

/-! ## Ends -/

theorem head?_escapeChar (c : Char) : ∀ d ∈ (escapeChar c).head?, d = c ∨ d = '&' := by
  rcases escapeChar_cases c with ⟨hc, -⟩ | ⟨name, hc, -⟩
  · simp [hc]
  · simp [hc]

theorem getLast?_escapeChar (c : Char) : ∀ d ∈ (escapeChar c).getLast?, d = c ∨ d = ';' := by
  rcases escapeChar_cases c with ⟨hc, -⟩ | ⟨name, hc, -⟩
  · simp [hc]
  · rw [hc, ← List.cons_append, List.getLast?_concat]
    simp

theorem escapeChar_ne_nil (c : Char) : escapeChar c ≠ [] := by
  rcases escapeChar_cases c with ⟨hc, -⟩ | ⟨name, hc, -⟩ <;> simp [hc]

/-- Escaped text has blanks at its ends only where the text has. -/
theorem trimBy_escaped {cs : List Char} (h : trimBy isMarkupBlank cs = cs) :
    trimBy isMarkupBlank (cs.flatMap escapeChar) = cs.flatMap escapeChar := by
  obtain ⟨hfirst, hlast⟩ := trimBy_eq_self_iff.1 h
  refine trimBy_eq_self_iff.2 ⟨?_, ?_⟩
  · cases cs with
    | nil => simp
    | cons c cs =>
      intro d hd
      rw [List.flatMap_cons, List.head?_append, Option.or_of_isSome
        (List.isSome_head?.2 (escapeChar_ne_nil c))] at hd
      rcases head?_escapeChar c d hd with rfl | rfl
      · exact hfirst d rfl
      · decide
  · rcases List.eq_nil_or_concat cs with rfl | ⟨front, c, rfl⟩
    · simp
    · rw [List.concat_eq_append] at hlast ⊢
      intro d hd
      rw [List.flatMap_append, List.flatMap_singleton,
        List.getLast?_append, Option.or_of_isSome
          (List.getLast?_isSome.2 (escapeChar_ne_nil c))] at hd
      rcases getLast?_escapeChar c d hd with rfl | rfl
      · exact hlast d List.getLast?_concat
      · decide

/-! ## Reading back -/

theorem unescape?_cons {c : Char} (h : c ≠ '&') (rest : List Char) :
    unescape? (c :: rest) = (unescape? rest).map (c :: ·) := by
  rw [unescape?]
  exact h

/-- A reference by name is read as the character that the name stands for. -/
theorem unescape?_reference {name : List Char} {c : Char} (hname : ∀ d ∈ name, inReference d = true)
    (hc : reference? name = some c) (rest : List Char) :
    unescape? ('&' :: (name ++ ';' :: rest)) = (unescape? rest).map (c :: ·) := by
  have hstop : inReference ';' = false := by decide
  rw [unescape?]
  split
  · rename_i rest' hrest
    rw [dropWhile_append_cons hname hstop] at hrest
    cases hrest
    rw [takeWhile_append_cons hname hstop, hc]
    cases unescape? rest <;> rfl
  · rename_i hnot
    exact absurd (dropWhile_append_cons hname hstop rest) (hnot rest)

theorem inReference_of_isAlphanum {c : Char} (h : c.isAlphanum = true) : inReference c = true := by
  rw [inReference, Bool.and_eq_true, bne_iff_ne, bne_iff_ne]
  constructor <;> (rintro rfl; cases h)

/-- Escaped text is read back as the text. -/
theorem unescape?_escaped (cs : List Char) : unescape? (cs.flatMap escapeChar) = some cs := by
  induction cs with
  | nil => rw [List.flatMap_nil, unescape?]
  | cons c cs ih =>
    rw [List.flatMap_cons]
    rcases escapeChar_cases c with ⟨hc, hnamed⟩ | ⟨name, hc, hreference, hname⟩
    · have hne : c ≠ '&' := by
        rintro rfl
        exact hnamed (by decide)
      rw [hc, List.singleton_append, unescape?_cons hne, ih]
      rfl
    · have hin : ∀ d ∈ name, inReference d = true := fun d hd =>
        inReference_of_isAlphanum (hname d hd)
      rw [hc, List.cons_append, List.append_assoc, List.singleton_append,
        unescape?_reference hin hreference, ih]
      rfl

end AppBundle.Xml.Markup
