import AppBundle.Text.Numeral

/-!
# Character references

Five characters have names in markup, and any character can be given by its
number.  `escape` writes the five by their names and everything else as it is;
`unescape?` reads names and numbers.

A reference runs from an ampersand to the next semicolon, with no other
ampersand between.  A number must be that of a character other than zero.
-/

namespace AppBundle.Xml.Markup

open Text

/-- The text that stands for a character in markup. -/
def escapeChar : Char → List Char
  | '<' => ['&', 'l', 't', ';']
  | '>' => ['&', 'g', 't', ';']
  | '&' => ['&', 'a', 'm', 'p', ';']
  | '\'' => ['&', 'a', 'p', 'o', 's', ';']
  | '"' => ['&', 'q', 'u', 'o', 't', ';']
  | c => [c]

/-- The text with the five named characters written by their names. -/
def escape (text : String) : String := String.ofList (text.toList.flatMap escapeChar)

/-- The character with a number, zero left out. -/
def numbered? (n : Nat) : Option Char :=
  if n ≠ 0 ∧ n.isValidChar then some (Char.ofNat n) else none

/-- The character that a reference stands for. -/
def reference? : List Char → Option Char
  | ['l', 't'] => some '<'
  | ['g', 't'] => some '>'
  | ['a', 'm', 'p'] => some '&'
  | ['a', 'p', 'o', 's'] => some '\''
  | ['q', 'u', 'o', 't'] => some '"'
  | '#' :: 'x' :: digits => (natural? 16 digits).bind numbered?
  | '#' :: digits => (natural? 10 digits).bind numbered?
  | _ => none

/-- Whether the character continues a reference. -/
def inReference (c : Char) : Bool := c != ';' && c != '&'

/-- The text with every reference replaced by its character, unless one is malformed. -/
def unescape? : List Char → Option (List Char)
  | [] => some []
  | '&' :: cs =>
    match _h : cs.dropWhile inReference with
    | ';' :: rest => do
      let c ← reference? (cs.takeWhile inReference)
      let text ← unescape? rest
      return c :: text
    | _ => none
  | c :: cs => (unescape? cs).map (c :: ·)
termination_by cs => cs.length
decreasing_by
  · have := (List.dropWhile_suffix (l := cs) inReference).length_le
    rw [_h] at this
    simp at this ⊢
    omega
  · simp

end AppBundle.Xml.Markup
