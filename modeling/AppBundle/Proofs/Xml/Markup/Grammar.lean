import AppBundle.Proofs.Xml.Markup.SimplyScoped

/-!
# Texts that write a value

A text is a literal when the word in it is, with the blanks around it left out.  The
writer's text for a value that has a literal is one, and is read as that value
(`ofLiteral?_exact`).
-/

namespace AppBundle.Xml.Markup

open Text

/-- A text writes a value if and only if the word in it does, with no blanks around it;
and the text that is written for a value that has a literal is read as that value. -/
theorem ofLiteral?_exact :
    (∀ text, ∃ front word back, text.toList = front ++ word ++ back ∧
      (∀ c ∈ front, isBlank c = true) ∧ (∀ c ∈ back, isBlank c = true) ∧
        (∀ c ∈ word.head?, isBlank c = false) ∧ (∀ c ∈ word.getLast?, isBlank c = false) ∧
          ∀ item, Item.ofLiteral? text = some item ↔ Item.IsLiteral word item) ∧
      ∀ (a : Attribute) item, a.item = some item → item.IsLegible false →
        Item.ofLiteral? (valueText a) = some item := by
  refine ⟨fun text => ?_, fun a item => ofLiteral?_valueText⟩
  obtain ⟨front, back, htext, hfront, hback, hhead, hlast⟩ := exists_trimBy isBlank text.toList
  exact ⟨front, _, back, htext, hfront, hback, hhead, hlast,
    fun _ => Item.whole_literal_eq_some_iff⟩

/-- The text that is written for the least number is read as it. -/
theorem ofLiteral?_exact_least :
    Item.ofLiteral? (valueText { name := "min", item := some (.decimal (-2147483648)) }) =
      some (.decimal (-2147483648)) :=
  ofLiteral?_exact.2 _ _ rfl (by decide)

/-- Blanks around the least number, and a number that is too great to have a value. -/
example : Item.ofLiteral? " -02147483648\n" = some (.decimal (-2147483648)) ∧
    Item.ofLiteral? "2147483648" = none := by decide

end AppBundle.Xml.Markup
