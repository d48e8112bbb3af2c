/-!
# Numerals

Numbers as text, in base ten or sixteen.  `decimal` and `hex` write them,
`natural?` and `integer?` read them.  A reader accepts the whole text or
nothing: one or more digits of the base, letters in either case, and for
`integer?` one sign in front.  Bounds are left to the caller, who knows the
width of the number: `word32?` and `signed32?` are the two bounds the formats
need most.
-/

namespace AppBundle.Text

/-! ## Writing -/

/-- The decimal text of a natural number. -/
def decimal (n : Nat) : String := String.ofList (Nat.toDigits 10 n)

/-- The decimal text of an integer, with a minus sign below zero. -/
def signedDecimal : Int → String
  | .ofNat n => decimal n
  | .negSucc n => "-" ++ decimal (n + 1)

/-- Lower-case hexadecimal digits, filled with zeros on the left up to `width`. -/
def hex (width n : Nat) : String :=
  let digits := Nat.toDigits 16 n
  String.ofList (List.replicate (width - digits.length) '0' ++ digits)

/-! ## Reading -/

/-- The value of a digit in a base up to sixteen. -/
def digit? (base : Nat) (c : Char) : Option Nat :=
  let value :=
    if '0' ≤ c ∧ c ≤ '9' then some (c.toNat - '0'.toNat)
    else if 'a' ≤ c ∧ c ≤ 'f' then some (c.toNat - 'a'.toNat + 10)
    else if 'A' ≤ c ∧ c ≤ 'F' then some (c.toNat - 'A'.toNat + 10)
    else none
  value.filter (· < base)

/-- The number written by one or more digits of the base. -/
def natural? (base : Nat) : List Char → Option Nat
  | [] => none
  | c :: cs => (c :: cs).foldlM (fun n d => (digit? base d).map (base * n + ·)) 0

/-- The number written by one or more digits of the base after an optional sign. -/
def integer? (base : Nat) : List Char → Option Int
  | '+' :: cs => (natural? base cs).map Int.ofNat
  | '-' :: cs => (natural? base cs).map fun n => -Int.ofNat n
  | cs => (natural? base cs).map Int.ofNat

/-! ## Widths -/

/-- The word with this value, when 32 bits hold it. -/
def word32? (n : Nat) : Option UInt32 :=
  if n < UInt32.size then some (UInt32.ofNat n) else none

/-- The signed word with this value, when 32 bits hold it. -/
def signed32? (n : Int) : Option Int32 :=
  if Int32.minValue.toInt ≤ n ∧ n ≤ Int32.maxValue.toInt then some (Int32.ofInt n) else none

/-- Reads a signed 32-bit number in decimal. -/
def readSigned32? (cs : List Char) : Option Int32 :=
  (integer? 10 cs).bind signed32?

end AppBundle.Text
