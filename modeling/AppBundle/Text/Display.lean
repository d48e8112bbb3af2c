import AppBundle.Text.Numeral

/-!
# Values in messages

Messages name the values they speak of: a text stands for itself, a number for
its decimal digits.  A list of values is written in brackets.
-/

namespace AppBundle.Text

/-- Values that messages can name. -/
class Display (α : Type) where
  /-- The name of a value. -/
  display : α → String

export Display (display)

instance : Display String := ⟨id⟩

instance : Display UInt32 := ⟨fun n => decimal n.toNat⟩

instance : Display Int32 := ⟨fun n => signedDecimal n.toInt⟩

/-- The values in brackets, separated by commas. -/
def listing {α : Type} [Display α] (as : List α) : String :=
  "[" ++ ", ".intercalate (as.map display) ++ "]"

end AppBundle.Text
