import AppBundle.Text.Numeral
import AppBundle.Text.Utf16

/-!
# Tokens of JSON

`tokens?` splits a text into tokens and drops the blanks between them.

A number keeps its value only where it is written as an integer; a fraction, an
exponent or a negative zero makes it none.  A string keeps its text only where
it has one: an escape can write half of a surrogate pair, and such a string is
well-formed all the same.
-/

namespace AppBundle.Json

open Text

/-- A token. -/
inductive Token where
  /-- The start of an object. -/
  | openObject
  /-- The end of an object. -/
  | closeObject
  /-- The start of an array. -/
  | openArray
  /-- The end of an array. -/
  | closeArray
  /-- A comma. -/
  | comma
  /-- A colon. -/
  | colon
  /-- Nothing. -/
  | null
  /-- A truth value. -/
  | boolean (value : Bool)
  /-- A number, with its value if it is written as an integer. -/
  | number (value : Option Int)
  /-- A string, with its text if it has one. -/
  | string (text : Option String)
deriving DecidableEq, Repr

/-- The blanks that may stand between tokens. -/
def isBlank (c : Char) : Bool := c == ' ' || c == '\t' || c == '\n' || c == '\r'

/-! ## Strings -/

/-- The character that an escape of one letter writes. -/
def escaped? (c : Char) : Option Char :=
  [('"', '"'), ('\\', '\\'), ('/', '/'), ('b', '\x08'), ('f', '\x0c'), ('n', '\n'), ('r', '\r'),
    ('t', '\t')].lookup c

/-- The UTF-16 units of a string up to its closing quote, and what follows the quote. -/
def stringUnits : List Char → Option (List Nat × List Char)
  | [] => none
  | '"' :: cs => some ([], cs)
  | '\\' :: 'u' :: a :: b :: c :: d :: cs => do
    let unit ← natural? 16 [a, b, c, d]
    let (units, rest) ← stringUnits cs
    return (unit :: units, rest)
  | '\\' :: c :: cs => do
    let written ← escaped? c
    let (units, rest) ← stringUnits cs
    return (Utf16.encodeChar written ++ units, rest)
  | c :: cs =>
    if c.toNat < 0x20 then none
    else (stringUnits cs).map fun (units, rest) => (Utf16.encodeChar c ++ units, rest)

theorem length_of_stringUnits {cs rest : List Char} {units : List Nat}
    (h : stringUnits cs = some (units, rest)) : rest.length < cs.length := by
  fun_induction stringUnits cs generalizing units with
  | case1 => contradiction
  | case2 cs =>
    simp only [Option.some.injEq, Prod.mk.injEq] at h
    simp [← h.2]
  | case3 a b c d cs ih =>
    simp only [Option.bind_eq_bind, Option.bind_eq_some_iff] at h
    obtain ⟨unit, _, ⟨tail, tailRest⟩, htail, heq⟩ := h
    cases heq
    have : tailRest.length < cs.length := ih htail
    simp only [List.length_cons]
    omega
  | case4 c cs _ ih =>
    simp only [Option.bind_eq_bind, Option.bind_eq_some_iff] at h
    obtain ⟨written, _, ⟨tail, tailRest⟩, htail, heq⟩ := h
    cases heq
    have : tailRest.length < cs.length := ih htail
    simp only [List.length_cons]
    omega
  | case5 => contradiction
  | case6 c cs _ _ _ _ ih =>
    obtain ⟨⟨tail, tailRest⟩, htail, heq⟩ := Option.map_eq_some_iff.1 h
    cases heq
    have : rest.length < cs.length := ih htail
    simp only [List.length_cons]
    omega

/-! ## Numbers -/

/-- The digits in front, and the rest. -/
def digits (cs : List Char) : List Char × List Char :=
  (cs.takeWhile Char.isDigit, cs.dropWhile Char.isDigit)

/-- Whether a fraction follows, and what stands after it. -/
def fraction? : List Char → Option (Bool × List Char)
  | '.' :: cs => if (digits cs).1 = [] then none else some (true, (digits cs).2)
  | cs => some (false, cs)

/-- The text without a sign in front. -/
def dropSign : List Char → List Char
  | '+' :: cs => cs
  | '-' :: cs => cs
  | cs => cs

/-- Whether an exponent follows, and what stands after it. -/
def exponent? : List Char → Option (Bool × List Char)
  | [] => some (false, [])
  | c :: cs =>
    if c = 'e' ∨ c = 'E' then
      let exponent := digits (dropSign cs)
      if exponent.1 = [] then none else some (true, exponent.2)
    else some (false, c :: cs)

/-- The number of the digits before a fraction.  Only zero itself begins with a zero. -/
def whole? : List Char → Option Nat
  | ['0'] => some 0
  | '0' :: _ :: _ => none
  | ds => natural? 10 ds

/-- A number without its sign: what it writes if it is an integer, and what follows it. -/
def magnitude? (cs : List Char) : Option (Option Nat × List Char) := do
  let whole ← whole? (digits cs).1
  let (hasFraction, rest) ← fraction? (digits cs).2
  let (hasExponent, rest) ← exponent? rest
  return (if hasFraction || hasExponent then none else some whole, rest)

/-- A number, and what follows it. -/
def number? : List Char → Option (Token × List Char)
  | '-' :: cs => do
    let (n, rest) ← magnitude? cs
    return (.number ((n.filter (· ≠ 0)).map fun n => -Int.ofNat n), rest)
  | cs => do
    let (n, rest) ← magnitude? cs
    return (.number (n.map Int.ofNat), rest)

theorem length_digits_snd (cs : List Char) :
    (digits cs).2.length = cs.length - (digits cs).1.length := by
  induction cs with
  | nil => rfl
  | cons c cs ih =>
    simp only [digits] at ih ⊢
    by_cases h : c.isDigit
    · simp [h, ih]
    · simp [h]

theorem length_of_fraction? {cs rest : List Char} {b : Bool} (h : fraction? cs = some (b, rest)) :
    rest.length ≤ cs.length := by
  fun_cases fraction? cs with
  | case1 => simp_all [fraction?]
  | case2 cs _ =>
    simp_all only [fraction?, if_false, Option.some.injEq, Prod.mk.injEq, List.length_cons]
    rw [← h.2, length_digits_snd]
    omega
  | case3 cs =>
    simp_all only [fraction?, Option.some.injEq, Prod.mk.injEq]
    exact h.2 ▸ Nat.le_refl _

theorem length_dropSign_le (cs : List Char) : (dropSign cs).length ≤ cs.length := by
  fun_cases dropSign cs <;> simp

theorem length_of_exponent? {cs rest : List Char} {b : Bool} (h : exponent? cs = some (b, rest)) :
    rest.length ≤ cs.length := by
  cases cs with
  | nil =>
    simp only [exponent?, Option.some.injEq, Prod.mk.injEq] at h
    simp [← h.2]
  | cons c cs =>
    simp only [exponent?] at h
    split at h
    · split at h
      · contradiction
      · simp only [Option.some.injEq, Prod.mk.injEq] at h
        have := length_digits_snd (dropSign cs)
        have := length_dropSign_le cs
        rw [← h.2, List.length_cons]
        omega
    · simp only [Option.some.injEq, Prod.mk.injEq] at h
      exact h.2 ▸ Nat.le_refl _

theorem length_of_magnitude? {cs rest : List Char} {n : Option Nat}
    (h : magnitude? cs = some (n, rest)) : rest.length < cs.length := by
  simp only [magnitude?, Option.bind_eq_bind, Option.bind_eq_some_iff] at h
  obtain ⟨_, hwhole, ⟨_, afterFraction⟩, hfraction, ⟨_, afterExponent⟩, hexponent, heq⟩ := h
  cases heq
  have hf := length_of_fraction? hfraction
  have he := length_of_exponent? hexponent
  have hd := length_digits_snd cs
  have hpos : 0 < (digits cs).1.length :=
    List.length_pos_iff.2 fun hnil => by simp [hnil, whole?, natural?] at hwhole
  have hle : (digits cs).1.length ≤ cs.length := (List.takeWhile_sublist _).length_le
  have hf : afterFraction.length ≤ (digits cs).2.length := hf
  have he : afterExponent.length ≤ afterFraction.length := he
  show afterExponent.length < cs.length
  omega

theorem length_of_number? {cs rest : List Char} {t : Token} (h : number? cs = some (t, rest)) :
    rest.length < cs.length := by
  fun_cases number? cs with
  | case1 cs =>
    simp only [number?, Option.bind_eq_bind, Option.bind_eq_some_iff] at h
    obtain ⟨⟨n, after⟩, hn, heq⟩ := h
    cases heq
    have := length_of_magnitude? hn
    simp only [List.length_cons]
    omega
  | case2 cs _ =>
    simp only [number?, Option.bind_eq_bind, Option.bind_eq_some_iff] at h
    obtain ⟨⟨n, after⟩, hn, heq⟩ := h
    cases heq
    exact length_of_magnitude? hn

/-! ## Tokens -/

/-- The token in front, and what follows it. -/
def token? : List Char → Option (Token × List Char)
  | '\x7b' :: cs => some (.openObject, cs)
  | '\x7d' :: cs => some (.closeObject, cs)
  | '[' :: cs => some (.openArray, cs)
  | ']' :: cs => some (.closeArray, cs)
  | ',' :: cs => some (.comma, cs)
  | ':' :: cs => some (.colon, cs)
  | 'n' :: 'u' :: 'l' :: 'l' :: cs => some (.null, cs)
  | 't' :: 'r' :: 'u' :: 'e' :: cs => some (.boolean true, cs)
  | 'f' :: 'a' :: 'l' :: 's' :: 'e' :: cs => some (.boolean false, cs)
  | '"' :: cs =>
    (stringUnits cs).map fun (units, rest) =>
      (.string ((Utf16.decode units).map String.ofList), rest)
  | cs => number? cs

theorem length_of_token? {cs rest : List Char} {t : Token} (h : token? cs = some (t, rest)) :
    rest.length < cs.length := by
  unfold token? at h
  split at h
  case h_10 =>
    obtain ⟨⟨units, after⟩, hunits, heq⟩ := Option.map_eq_some_iff.1 h
    cases heq
    have := length_of_stringUnits hunits
    simp only [List.length_cons]
    omega
  case h_11 => exact length_of_number? h
  all_goals
    simp only [Option.some.injEq, Prod.mk.injEq] at h
    simp [← h.2]
    try omega

/-- The tokens of a text, if it consists of tokens and blanks. -/
def tokens? (cs : List Char) : Option (List Token) :=
  match cs with
  | [] => some []
  | c :: cs =>
    if isBlank c then tokens? cs
    else
      match _h : token? (c :: cs) with
      | none => none
      | some (t, rest) => (tokens? rest).map (t :: ·)
termination_by cs.length
decreasing_by
  · simp
  · exact length_of_token? _h

end AppBundle.Json
