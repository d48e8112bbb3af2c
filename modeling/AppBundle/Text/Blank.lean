/-!
# Blank characters

Two sets of characters count as blank.  `isBlank` is the Unicode property
`White_Space`: it decides what surrounds a literal, a number or a text run.
`isMarkupBlank` is the smaller set of the XML grammar: it decides where the
names and attributes of a tag end.

`trim` removes the characters of such a set at both ends of a text.
-/

namespace AppBundle.Text

/-- The characters with the Unicode property `White_Space`. -/
def isBlank (c : Char) : Bool :=
  let n := c.toNat
  (0x09 ≤ n && n ≤ 0x0d) || n == 0x20 || n == 0x85 || n == 0xa0 || n == 0x1680 ||
    (0x2000 ≤ n && n ≤ 0x200a) || n == 0x2028 || n == 0x2029 || n == 0x202f || n == 0x205f ||
    n == 0x3000

/-- The white space of the XML grammar: space, tab, carriage return, line feed. -/
def isMarkupBlank (c : Char) : Bool :=
  c == ' ' || c == '\t' || c == '\r' || c == '\n'

theorem isBlank_of_isMarkupBlank {c : Char} (h : isMarkupBlank c = true) : isBlank c = true := by
  simp only [isMarkupBlank, Bool.or_eq_true, beq_iff_eq] at h
  rcases h with ((rfl | rfl) | rfl) | rfl <;> decide

/-- The text without the trailing characters that `drop` accepts. -/
def trimRight (drop : Char → Bool) (cs : List Char) : List Char :=
  (cs.reverse.dropWhile drop).reverse

/-- The text without the characters that `drop` accepts at either end. -/
def trimBy (drop : Char → Bool) (cs : List Char) : List Char :=
  trimRight drop (cs.dropWhile drop)

/-- The text without Unicode white space at either end. -/
def trim (s : String) : String := String.ofList (trimBy isBlank s.toList)

end AppBundle.Text
