/-!
# UTF-16

A character below `0x10000` is one unit.  A higher one is a leading surrogate
(`0xd800` to `0xdbff`) that carries the upper ten bits of its offset and a
trailing surrogate (`0xdc00` to `0xdfff`) that carries the lower ten.

`Utf16.decode` refuses a surrogate that stands alone, so it accepts exactly the
unit sequences that `Utf16.encode` produces.
-/

namespace AppBundle.Text.Utf16

/-- The units of one character. -/
def encodeChar (c : Char) : List Nat :=
  let n := c.toNat
  if n < 0x10000 then [n]
  else [0xd800 + (n - 0x10000) / 0x400, 0xdc00 + (n - 0x10000) % 0x400]

/-- The units of a text. -/
def encode (cs : List Char) : List Nat := cs.flatMap encodeChar

/-- Whether the unit is the first half of a pair. -/
def IsLeading (u : Nat) : Prop := 0xd800 ≤ u ∧ u < 0xdc00

/-- Whether the unit is the second half of a pair. -/
def IsTrailing (u : Nat) : Prop := 0xdc00 ≤ u ∧ u < 0xe000

instance (u : Nat) : Decidable (IsLeading u) :=
  inferInstanceAs (Decidable (0xd800 ≤ u ∧ u < 0xdc00))

instance (u : Nat) : Decidable (IsTrailing u) :=
  inferInstanceAs (Decidable (0xdc00 ≤ u ∧ u < 0xe000))

/-- The character of a surrogate pair. -/
def pair (leading trailing : Nat) : Char :=
  Char.ofNat (0x10000 + (leading - 0xd800) * 0x400 + (trailing - 0xdc00))

/-- The text written by the units, unless a surrogate has no partner. -/
def decode : List Nat → Option (List Char)
  | [] => some []
  | u :: us =>
    if IsLeading u then
      match us with
      | v :: vs => if IsTrailing v then (decode vs).map (pair u v :: ·) else none
      | [] => none
    else if IsTrailing u then none
    else (decode us).map (Char.ofNat u :: ·)

end AppBundle.Text.Utf16
