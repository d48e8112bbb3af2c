import AppBundle.Text.Numeral

/-!
# The front of a text

A reader of a text takes a value off its front and leaves the rest.  Readers are
chained, and tried in order: `m <|> n` asks `n` only where `m` takes nothing.  A
reader is not asked what follows it.  Once it has taken something that stands, and
a rest that is no good does not make the choice come back to another reader.

`Front.whole` reads a text to its end.  It looks at the rest after all choices
have been made.
-/

namespace AppBundle.Text

/-- A step that takes a value off the front of a text and leaves the rest. -/
abbrev Front := StateT (List Char) Option

namespace Front

/-- Takes a character that passes a test. -/
def satisfy (p : Char → Bool) : Front Char
  | [] => none
  | c :: cs => if p c then some (c, cs) else none

/-- Takes the characters of a word, or others with the same keys. -/
def tagBy (key : Char → Char) : List Char → Front Unit
  | [], cs => some ((), cs)
  | _ :: _, [] => none
  | w :: ws, c :: cs => if key c = key w then tagBy key ws cs else none

/-- Takes a word. -/
def tag (word : List Char) : Front Unit := tagBy id word

/-- Takes a word, with letters in either case. -/
def tagAnyCase (word : List Char) : Front Unit := tagBy Char.toLower word

/-- Takes the longest run of characters that pass a test. -/
def run (p : Char → Bool) : Front (List Char) := fun cs => some (cs.takeWhile p, cs.dropWhile p)

/-- Takes the longest run of characters that pass a test, if there are any. -/
def run1 (p : Char → Bool) : Front (List Char) := fun cs =>
  match cs.takeWhile p with
  | [] => none
  | front => some (front, cs.dropWhile p)

/-- Takes the longest run of digits of a base, if there are any. -/
def digits (base : Nat) : Front (List Char) := run1 fun c => (digit? base c).isSome

/-- Takes a minus sign, if there is one. -/
def sign : Front (List Char) := (do tag ['-']; return ['-']) <|> return []

/-- Takes an optional minus sign and a run of decimal digits, as one stretch. -/
def signedDigits : Front (List Char) := do
  let sign ← sign
  let digits ← digits 10
  return sign ++ digits

/-- The value of a text that a reader takes whole. -/
def whole {α : Type} (m : Front α) (cs : List Char) : Option α :=
  match m cs with
  | some (a, []) => some a
  | _ => none

end Front

end AppBundle.Text
