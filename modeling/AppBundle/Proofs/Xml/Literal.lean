import AppBundle.Proofs.Text.Front
import AppBundle.Xml.Item

/-!
# The grammar of literals

`IsLiteral` says which words write which values, form by form.  A number that 32
bits do not hold has no value and is no literal, whatever its length.

The reader takes a form off the front of a text, and with it the longest run of
digits (`hexWord_eq_some_iff`, `signedNumber_eq_some_iff`).  It keeps to the first
form that is there, and only then asks whether anything is left.  So a form that
takes a part of a word can stand in the way of one that would take all of it.  None
does: the forms that come before are not there at all in front of a literal, as its
first characters tell.  The reader accepts just what the grammar has
(`whole_literal_eq_some_iff`).

Truth values, numbers, words and resources without a name are written as literals,
each of a form of its own and without blanks, and so they are read back as what
they were (`ofLiteral?_boolean` and the three after it).
-/

namespace AppBundle.Xml.Item

open Text

/-! ## Forms -/

/-- The word that hexadecimal digits after `0x` or `0X` write. -/
inductive IsHexWord : List Char → UInt32 → Prop where
  /-- The digits write the value of the word. -/
  | intro {x : Char} {digits : List Char} {w : UInt32} (hx : x = 'x' ∨ x = 'X')
    (hdigits : Writes 16 digits w.toNat) : IsHexWord ('0' :: x :: digits) w

/-- The value that a word writes, if it is a literal. -/
inductive IsLiteral : List Char → Item → Prop where
  /-- One truth value. -/
  | true : IsLiteral ['t', 'r', 'u', 'e'] (boolean true)
  /-- The other one. -/
  | false : IsLiteral ['f', 'a', 'l', 's', 'e'] (boolean false)
  /-- A resource has no name, and its id is a word behind an at sign. -/
  | reference {cs : List Char} {id : UInt32} (h : IsHexWord cs id) :
    IsLiteral ('@' :: cs) (reference id none)
  /-- A word. -/
  | hex {cs : List Char} {w : UInt32} (h : IsHexWord cs w) : IsLiteral cs (hex w)
  /-- A signed number without a sign. -/
  | decimal {digits : List Char} {n : Nat} {v : Int32} (hdigits : Writes 10 digits n)
    (hv : v.toInt = n) : IsLiteral digits (decimal v)
  /-- A signed number with a minus sign. -/
  | negative {digits : List Char} {n : Nat} {v : Int32} (hdigits : Writes 10 digits n)
    (hv : v.toInt = -n) : IsLiteral ('-' :: digits) (decimal v)

/-! ## Words -/

variable {cs rest : List Char}

/-- The characters that stand for one of ASCII are of ASCII. -/
theorem toNat_lt_of_toLower {c : Char} (h : c.toLower.toNat < 0x80) : c.toNat < 0x80 := by
  unfold Char.toLower at h
  split at h
  · rename_i hupper
    have hle : c.toNat ≤ 'Z'.toNat := hupper.2
    exact Nat.lt_of_le_of_lt hle (by decide)
  · exact h

/-- A word starts with `0x` or `0X`. -/
theorem tag_hexWord_eq_some_iff :
    Front.tagAnyCase ['0', 'x'] cs = some ((), rest) ↔
      ∃ x, cs = '0' :: x :: rest ∧ (x = 'x' ∨ x = 'X') := by
  have hall : ∀ n < 0x80, ((Char.ofNat n).toLower = '0' → Char.ofNat n = '0') ∧
      ((Char.ofNat n).toLower = 'x' → Char.ofNat n = 'x' ∨ Char.ofNat n = 'X') := by decide
  have hkey : ∀ c : Char, (c.toLower = '0' → c = '0') ∧ (c.toLower = 'x' → c = 'x' ∨ c = 'X') := by
    intro c
    refine ⟨fun h => ?_, fun h => ?_⟩
    · have hc := hall c.toNat (toNat_lt_of_toLower (by rw [h]; decide))
      rw [Char.ofNat_toNat] at hc
      exact hc.1 h
    · have hc := hall c.toNat (toNat_lt_of_toLower (by rw [h]; decide))
      rw [Char.ofNat_toNat] at hc
      exact hc.2 h
  rw [Front.tagAnyCase, Front.tagBy_eq_some_iff]
  constructor
  · rintro ⟨front, rfl, hfront⟩
    obtain ⟨c, front, rfl, hc, hfront⟩ := List.map_eq_cons_iff.1 hfront
    obtain ⟨x, front, rfl, hx, hfront⟩ := List.map_eq_cons_iff.1 hfront
    cases List.map_eq_nil_iff.1 hfront
    obtain rfl := (hkey c).1 hc
    exact ⟨x, rfl, (hkey x).2 hx⟩
  · rintro ⟨x, rfl, rfl | rfl⟩
    · exact ⟨['0', 'x'], rfl, rfl⟩
    · exact ⟨['0', 'X'], rfl, rfl⟩

/-- A word is taken with all its digits. -/
theorem hexWord_eq_some_iff {w : UInt32} :
    hexWord cs = some (w, rest) ↔ ∃ front, cs = front ++ rest ∧ IsHexWord front w ∧
      ∀ c ∈ rest.head?, digit? 16 c = none := by
  constructor
  · intro h
    obtain ⟨⟨⟩, behind, htag, h⟩ := Front.bind_eq_some_iff.1 h
    obtain ⟨digits, rest', hdigits, h⟩ := Front.bind_eq_some_iff.1 h
    obtain ⟨hvalue, rfl⟩ := Front.lift_eq_some_iff.1 h
    obtain ⟨n, hn, hw⟩ := Option.bind_eq_some_iff.1 hvalue
    obtain rfl := word32?_eq_some_iff.1 hw
    obtain ⟨x, rfl, hx⟩ := tag_hexWord_eq_some_iff.1 htag
    obtain ⟨rfl, hwrites, hrest⟩ := Front.writes_of_digits (by decide) hdigits hn
    exact ⟨'0' :: x :: digits, rfl, .intro hx hwrites, hrest⟩
  · rintro ⟨_, rfl, @⟨x, digits, w, hx, hdigits⟩, hrest⟩
    have hvalue : (natural? 16 digits).bind word32? = some w := by
      rw [(natural?_eq_some_iff (by decide)).2 hdigits, Option.bind_some, word32?_toNat]
    have htag :
        Front.tagAnyCase ['0', 'x'] ('0' :: x :: digits ++ rest) = some ((), digits ++ rest) :=
      tag_hexWord_eq_some_iff.2 ⟨x, rfl, hx⟩
    rw [hexWord, Front.bind_of_some htag,
      Front.bind_of_some (Front.digits_of_writes (by decide) hdigits hrest)]
    exact Front.lift_eq_some_iff.2 ⟨hvalue, rfl⟩

/-- No word stands in front of a text of digits alone. -/
theorem hexWord_of_digits (h : ∀ c ∈ cs, c.isDigit = true) : hexWord cs = none := by
  rw [Option.eq_none_iff_forall_ne_some]
  rintro ⟨w, rest⟩ hw
  obtain ⟨_, rfl, ⟨hx, -⟩, -⟩ := hexWord_eq_some_iff.1 hw
  have hdigit := h _ (List.mem_cons_of_mem _ List.mem_cons_self)
  rcases hx with rfl | rfl
  · cases hdigit
  · cases hdigit

/-! ## Signed numbers -/

theorem readSigned32?_of_digits (h : ∀ c ∈ cs, (digit? 10 c).isSome = true) :
    readSigned32? cs = (natural? 10 cs).bind fun n => signed32? (Int.ofNat n) := by
  unfold readSigned32? integer?
  split
  · cases h '+' List.mem_cons_self
  · cases h '-' List.mem_cons_self
  · rw [Option.bind_map]
    rfl

theorem readSigned32?_minus :
    readSigned32? ('-' :: cs) = (natural? 10 cs).bind fun n => signed32? (-Int.ofNat n) := by
  rw [readSigned32?, integer?, Option.bind_map]
  rfl

/-- A signed number is taken with all its digits. -/
theorem signedNumber_eq_some_iff {v : Int32} :
    signedNumber cs = some (v, rest) ↔ ∃ front, cs = front ++ rest ∧
      IsLiteral front (decimal v) ∧ ∀ c ∈ rest.head?, digit? 10 c = none := by
  constructor
  · intro h
    obtain ⟨text, rest', htext, h⟩ := Front.bind_eq_some_iff.1 h
    obtain ⟨hvalue, rfl⟩ := Front.lift_eq_some_iff.1 h
    rcases Front.signedDigits_eq_some_iff.1 htext with hdigits | ⟨behind, digits, rfl, rfl, hdigits⟩
    · rw [readSigned32?_of_digits (Front.digits_eq_some_iff.1 hdigits).2.2.1] at hvalue
      obtain ⟨n, hn, hv⟩ := Option.bind_eq_some_iff.1 hvalue
      obtain ⟨rfl, hwrites, hrest⟩ := Front.writes_of_digits (by decide) hdigits hn
      exact ⟨text, rfl, .decimal hwrites (signed32?_eq_some_iff.1 hv), hrest⟩
    · rw [readSigned32?_minus] at hvalue
      obtain ⟨n, hn, hv⟩ := Option.bind_eq_some_iff.1 hvalue
      obtain ⟨rfl, hwrites, hrest⟩ := Front.writes_of_digits (by decide) hdigits hn
      exact ⟨'-' :: digits, rfl, .negative hwrites (signed32?_eq_some_iff.1 hv), hrest⟩
  · rintro ⟨front, rfl, hliteral, hrest⟩
    cases hliteral with
    | decimal hdigits hv =>
      have htaken := Front.digits_of_writes (by decide) hdigits hrest
      rw [signedNumber, Front.bind_of_some (Front.signedDigits_of_digits htaken)]
      refine Front.lift_eq_some_iff.2 ⟨?_, rfl⟩
      rw [readSigned32?_of_digits (hdigits.isSome_digit? (by decide)),
        (natural?_eq_some_iff (by decide)).2 hdigits, Option.bind_some]
      exact signed32?_eq_some_iff.2 hv
    | negative hdigits hv =>
      have htaken := Front.digits_of_writes (by decide) hdigits hrest
      rw [signedNumber, List.cons_append, Front.bind_of_some (Front.signedDigits_minus htaken)]
      refine Front.lift_eq_some_iff.2 ⟨?_, rfl⟩
      rw [readSigned32?_minus, (natural?_eq_some_iff (by decide)).2 hdigits, Option.bind_some]
      exact signed32?_eq_some_iff.2 hv

/-! ## Literals -/

/-- What is taken as a literal stands in front of the rest and is one. -/
theorem isLiteral_of_literal {item : Item} (h : literal cs = some (item, rest)) :
    ∃ front, cs = front ++ rest ∧ IsLiteral front item := by
  rcases Front.orElse_eq_some_iff.1 h with h | ⟨-, h⟩
  · obtain ⟨⟨⟩, behind, htag, h⟩ := Front.bind_eq_some_iff.1 h
    cases h
    exact ⟨_, Front.tag_eq_some_iff.1 htag, .true⟩
  rcases Front.orElse_eq_some_iff.1 h with h | ⟨-, h⟩
  · obtain ⟨⟨⟩, behind, htag, h⟩ := Front.bind_eq_some_iff.1 h
    cases h
    exact ⟨_, Front.tag_eq_some_iff.1 htag, .false⟩
  rcases Front.orElse_eq_some_iff.1 h with h | ⟨-, h⟩
  · obtain ⟨⟨⟩, behind, htag, h⟩ := Front.bind_eq_some_iff.1 h
    obtain ⟨id, behind', hid, h⟩ := Front.bind_eq_some_iff.1 h
    cases h
    obtain rfl := Front.tag_eq_some_iff.1 htag
    obtain ⟨front, rfl, hword, -⟩ := hexWord_eq_some_iff.1 hid
    exact ⟨'@' :: front, rfl, .reference hword⟩
  rcases Front.orElse_eq_some_iff.1 h with h | ⟨-, h⟩
  · obtain ⟨w, behind, hw, h⟩ := Front.bind_eq_some_iff.1 h
    cases h
    obtain ⟨front, rfl, hword, -⟩ := hexWord_eq_some_iff.1 hw
    exact ⟨front, rfl, .hex hword⟩
  · obtain ⟨v, behind, hv, h⟩ := Front.bind_eq_some_iff.1 h
    cases h
    obtain ⟨front, rfl, hnumber, -⟩ := signedNumber_eq_some_iff.1 hv
    exact ⟨front, rfl, hnumber⟩

/-- In front of a text that starts neither as a truth value nor as a resource the forms of
numbers are tried. -/
theorem literal_cons {c : Char} (ht : c ≠ 't') (hf : c ≠ 'f') (hat : c ≠ '@') :
    literal (c :: cs) =
      ((do return hex (← hexWord)) <|> (do return decimal (← signedNumber)) : Front Item)
        (c :: cs) := by
  rw [literal, Front.orElse_of_none (Front.bind_of_none (Front.tag_of_ne ht)),
    Front.orElse_of_none (Front.bind_of_none (Front.tag_of_ne hf)),
    Front.orElse_of_none (Front.bind_of_none (Front.tag_of_ne hat))]

/-- A signed number stands where no other form is. -/
theorem literal_of_signedNumber {v : Int32} (h : signedNumber cs = some (v, []))
    (hhead : ∀ c ∈ cs.head?, c.isDigit = true ∨ c = '-') (hword : hexWord cs = none) :
    literal cs = some (decimal v, []) := by
  cases cs with
  | nil => cases h
  | cons c cs =>
    have hne : ∀ d : Char, d.isDigit = false → d ≠ '-' → c ≠ d := by
      rintro d hd hminus rfl
      rcases hhead c rfl with h | h
      · rw [hd] at h
        cases h
      · exact hminus h
    rw [literal_cons (hne 't' rfl (by decide)) (hne 'f' rfl (by decide)) (hne '@' rfl (by decide)),
      Front.orElse_of_none (Front.bind_of_none hword), Front.bind_of_some h]
    rfl

/-- The reader accepts the literals and nothing else. -/
theorem whole_literal_eq_some_iff {item : Item} :
    literal.whole cs = some item ↔ IsLiteral cs item := by
  rw [Front.whole_eq_some_iff]
  constructor
  · intro h
    obtain ⟨front, rfl, hfront⟩ := isLiteral_of_literal h
    rwa [List.append_nil]
  · intro h
    cases h with
    | true => rfl
    | false => rfl
    | @reference cs id h =>
      have hword := hexWord_eq_some_iff.2 ⟨cs, (List.append_nil cs).symm, h, nofun⟩
      rw [literal, Front.orElse_of_none (Front.bind_of_none (Front.tag_of_ne (by decide))),
        Front.orElse_of_none (Front.bind_of_none (Front.tag_of_ne (by decide)))]
      have hat : Front.tag ['@'] ('@' :: cs) = some ((), cs) := rfl
      refine Front.orElse_of_some ?_
      rw [Front.bind_of_some hat, Front.bind_of_some hword]
      rfl
    | hex h =>
      have hword := hexWord_eq_some_iff.2 ⟨cs, (List.append_nil cs).symm, h, nofun⟩
      cases h
      rw [literal_cons (by decide) (by decide) (by decide)]
      refine Front.orElse_of_some ?_
      rw [Front.bind_of_some hword]
      rfl
    | decimal hdigits hv =>
      have hnumber := signedNumber_eq_some_iff.2
        ⟨cs, (List.append_nil cs).symm, .decimal hdigits hv, nofun⟩
      refine literal_of_signedNumber hnumber ?_ (hexWord_of_digits hdigits.isDigit)
      exact fun c hc => .inl (hdigits.isDigit c (List.mem_of_mem_head? hc))
    | @negative digits n v hdigits hv =>
      have hnumber := signedNumber_eq_some_iff.2
        ⟨'-' :: digits, (List.append_nil _).symm, .negative hdigits hv, nofun⟩
      refine literal_of_signedNumber hnumber ?_ (Front.bind_of_none rfl)
      rintro c ⟨⟩
      exact .inr rfl

/-! ## Written literals -/

/-- A literal without blanks is read as the value that it writes. -/
theorem ofLiteral?_of_isLiteral {text : String} {item : Item}
    (hblank : ∀ c ∈ text.toList, isBlank c = false) (h : IsLiteral text.toList item) :
    ofLiteral? text = some item := by
  rw [ofLiteral?, trimBy_of_forall hblank]
  exact whole_literal_eq_some_iff.2 h

theorem ofLiteral?_boolean (value : Bool) :
    ofLiteral? (booleanText value) = some (boolean value) := by
  cases value <;> decide

theorem toList_hexText (width n : Nat) :
    ("0x" ++ Text.hex width n).toList = '0' :: 'x' :: (Text.hex width n).toList := by
  rw [String.toList_append]
  rfl

theorem isBlank_of_mem_hexText {width n : Nat} {c : Char}
    (h : c ∈ ("0x" ++ Text.hex width n).toList) : isBlank c = false := by
  rw [toList_hexText, List.mem_cons, List.mem_cons] at h
  rcases h with rfl | rfl | h
  · decide
  · decide
  · exact isBlank_of_isAlphanum (isAlphanum_of_mem_hex h)

theorem isHexWord_hexText (width : Nat) (w : UInt32) :
    IsHexWord ("0x" ++ Text.hex width w.toNat).toList w := by
  rw [toList_hexText]
  exact .intro (.inl rfl) ((natural?_eq_some_iff (by decide)).1 (natural?_hex width w.toNat))

theorem ofLiteral?_hex (width : Nat) (w : UInt32) :
    ofLiteral? ("0x" ++ Text.hex width w.toNat) = some (hex w) :=
  ofLiteral?_of_isLiteral (fun _ => isBlank_of_mem_hexText) (.hex (isHexWord_hexText width w))

theorem ofLiteral?_reference (width : Nat) (id : UInt32) :
    ofLiteral? ("@0x" ++ Text.hex width id.toNat) = some (reference id none) := by
  have hlist : ("@0x" ++ Text.hex width id.toNat).toList =
      '@' :: ("0x" ++ Text.hex width id.toNat).toList := by
    rw [String.toList_append, String.toList_append]
    rfl
  refine ofLiteral?_of_isLiteral ?_ ?_
  · rw [hlist, List.forall_mem_cons]
    exact ⟨by decide, fun _ => isBlank_of_mem_hexText⟩
  · rw [hlist]
    exact .reference (isHexWord_hexText width id)

theorem isBlank_of_mem_decimal {n : Nat} {c : Char} (h : c ∈ (Text.decimal n).toList) :
    isBlank c = false :=
  isBlank_of_isAlphanum (by simp [Char.isAlphanum, isDigit_of_mem_decimal h])

theorem ofLiteral?_decimal (v : Int32) :
    ofLiteral? (signedDecimal v.toInt) = some (decimal v) := by
  cases hsign : v.toInt with
  | ofNat n =>
    refine ofLiteral?_of_isLiteral (fun c => isBlank_of_mem_decimal) ?_
    exact .decimal ((natural?_eq_some_iff (by decide)).1 (natural?_decimal n)) hsign
  | negSucc n =>
    have hlist : (signedDecimal (.negSucc n)).toList = '-' :: (Text.decimal (n + 1)).toList := by
      rw [signedDecimal, String.toList_append]
      rfl
    refine ofLiteral?_of_isLiteral ?_ ?_
    · rw [hlist, List.forall_mem_cons]
      exact ⟨by decide, fun c => isBlank_of_mem_decimal⟩
    · rw [hlist]
      exact .negative ((natural?_eq_some_iff (by decide)).1 (natural?_decimal (n + 1))) hsign

end AppBundle.Xml.Item
