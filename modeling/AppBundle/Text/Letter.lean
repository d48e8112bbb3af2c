/-!
# Letter case

Codes of countries and languages are compared without regard to case.  Only the
letters of ASCII have a case here; every other character stands for itself.
-/

namespace AppBundle.Text

/-- The text with its ASCII letters in upper case. -/
def upper (s : String) : String := String.ofList (s.toList.map Char.toUpper)

/-- The text with its ASCII letters in lower case. -/
def lower (s : String) : String := String.ofList (s.toList.map Char.toLower)

end AppBundle.Text
