import AppBundle.Text.Numeral
import Mathlib.Data.List.Induction

/-!
# Numerals that were written

A number is read back from its digits (`natural?_toDigits`): the last digit is
what the number leaves when it is divided by the base, and the digits before it
are those of the quotient.  Zeros in front make no difference.  The two widths
read back every number that they hold.

`Writes` is the grammar of numerals: one or more digits write a number, each new
digit counting the ones before it `base` times.  The reader accepts just that
(`natural?_eq_some_iff`).
-/

namespace AppBundle.Text

/-! ## Digits -/

/-- The number that digits write after the digits of another. -/
def readDigits (base n : Nat) (cs : List Char) : Option Nat :=
  cs.foldlM (fun n d => (digit? base d).map (base * n + ·)) n

theorem natural?_of_ne_nil {base : Nat} {cs : List Char} (h : cs ≠ []) :
    natural? base cs = readDigits base 0 cs := by
  cases cs with
  | nil => contradiction
  | cons c cs => rfl

theorem readDigits_append (base n : Nat) (cs ds : List Char) :
    readDigits base n (cs ++ ds) = (readDigits base n cs).bind (readDigits base · ds) :=
  List.foldlM_append

theorem digit?_digitChar {base d : Nat} (hd : d < base) (hbase : base ≤ 16) :
    digit? base d.digitChar = some d := by
  have hall : ∀ base ≤ 16, ∀ d < base, digit? base d.digitChar = some d := by decide
  exact hall base hbase d hd

theorem readDigits_digitChar {base d : Nat} (hd : d < base) (hbase : base ≤ 16) (n : Nat) :
    readDigits base n [d.digitChar] = some (base * n + d) := by
  simp [readDigits, digit?_digitChar hd hbase]

/-- The digits of a number write it. -/
theorem readDigits_toDigits {base : Nat} (hlow : 1 < base) (hbase : base ≤ 16) (n : Nat) :
    readDigits base 0 (Nat.toDigits base n) = some n := by
  induction n using Nat.strongRecOn with
  | ind n ih =>
    rw [Nat.toDigits_eq_if hlow]
    split
    · rename_i hlt
      rw [readDigits_digitChar hlt hbase, Nat.mul_zero, Nat.zero_add]
    · rename_i hge
      have hpos : 0 < base := by omega
      rw [readDigits_append, ih (n / base) (Nat.div_lt_self (by omega) hlow), Option.bind_some,
        readDigits_digitChar (Nat.mod_lt n hpos) hbase, Nat.div_add_mod]

theorem readDigits_zeros {base : Nat} (hlow : 1 < base) (hbase : base ≤ 16) (k : Nat) :
    readDigits base 0 (List.replicate k '0') = some 0 := by
  induction k with
  | zero => rfl
  | succ k ih =>
    rw [List.replicate_succ, ← List.singleton_append, readDigits_append,
      show '0' = Nat.digitChar 0 from rfl, readDigits_digitChar (by omega) hbase, Option.bind_some,
      Nat.mul_zero]
    exact ih

/-- A number is read back from its digits, with any number of zeros in front. -/
theorem natural?_toDigits {base : Nat} (hlow : 1 < base) (hbase : base ≤ 16) (k n : Nat) :
    natural? base (List.replicate k '0' ++ Nat.toDigits base n) = some n := by
  rw [natural?_of_ne_nil (by simp [Nat.toDigits_ne_nil]), readDigits_append,
    readDigits_zeros hlow hbase, Option.bind_some, readDigits_toDigits hlow hbase]

theorem natural?_decimal (n : Nat) : natural? 10 (decimal n).toList = some n := by
  rw [decimal, String.toList_ofList]
  exact natural?_toDigits (by decide) (by decide) 0 n

theorem natural?_hex (width n : Nat) : natural? 16 (hex width n).toList = some n := by
  rw [hex, String.toList_ofList]
  exact natural?_toDigits (by decide) (by decide) _ n

/-! ## Grammar -/

/-- A character that writes a digit of the base, as a letter in either case. -/
def IsDigit (base : Nat) (c : Char) (d : Nat) : Prop :=
  d < base ∧ (c = d.digitChar ∨ c = d.digitChar.toUpper)

/-- The number that one or more digits of the base write. -/
inductive Writes (base : Nat) : List Char → Nat → Prop where
  /-- A digit writes its value. -/
  | digit {c : Char} {d : Nat} (h : IsDigit base c d) : Writes base [c] d
  /-- A digit behind others counts them once more for each digit of the base. -/
  | append {cs : List Char} {c : Char} {n d : Nat} (front : Writes base cs n)
    (h : IsDigit base c d) : Writes base (cs ++ [c]) (base * n + d)

variable {base : Nat} {cs : List Char} {n : Nat}

theorem Writes.ne_nil (h : Writes base cs n) : cs ≠ [] := by
  cases h <;> simp

/-- The characters that write digits are all below `g`. -/
theorem toNat_lt_of_digit? {c : Char} {d : Nat} (h : digit? base c = some d) :
    c.toNat < 'g'.toNat := by
  obtain ⟨h, -⟩ := Option.filter_eq_some_iff.1 h
  split at h
  · rename_i hrange
    exact Nat.lt_of_le_of_lt (show c.toNat ≤ '9'.toNat from hrange.2) (by decide)
  split at h
  · rename_i hrange
    exact Nat.lt_of_le_of_lt (show c.toNat ≤ 'f'.toNat from hrange.2) (by decide)
  split at h
  · rename_i hrange
    exact Nat.lt_of_le_of_lt (show c.toNat ≤ 'F'.toNat from hrange.2) (by decide)
  · cases h

theorem digit?_eq_some_iff (hbase : base ≤ 16) {c : Char} {d : Nat} :
    digit? base c = some d ↔ IsDigit base c d := by
  constructor
  · intro h
    have hall : ∀ n < 'g'.toNat, ∀ d ∈ digit? 16 (Char.ofNat n),
        Char.ofNat n = d.digitChar ∨ Char.ofNat n = d.digitChar.toUpper := by decide
    obtain ⟨hvalue, hlt⟩ := Option.filter_eq_some_iff.1 h
    have hlt : d < base := by simpa using hlt
    have hhex : digit? 16 c = some d :=
      Option.filter_eq_some_iff.2 ⟨hvalue, by simpa using Nat.lt_of_lt_of_le hlt hbase⟩
    have hchar := hall c.toNat (toNat_lt_of_digit? h)
    rw [Char.ofNat_toNat] at hchar
    exact ⟨hlt, hchar d hhex⟩
  · rintro ⟨hd, rfl | rfl⟩
    · exact digit?_digitChar hd hbase
    · have hall : ∀ base ≤ 16, ∀ d < base, digit? base d.digitChar.toUpper = some d := by decide
      exact hall base hbase d hd

theorem readDigits_singleton {c : Char} {m : Nat} :
    readDigits base m [c] = some n ↔ ∃ d, digit? base c = some d ∧ base * m + d = n := by
  simp [readDigits]

/-- The reader accepts one or more digits, and gives the number that they write. -/
theorem natural?_eq_some_iff (hbase : base ≤ 16) :
    natural? base cs = some n ↔ Writes base cs n := by
  constructor
  · intro h
    induction cs using List.reverseRecOn generalizing n with
    | nil => cases h
    | append_singleton front c ih =>
      rw [natural?_of_ne_nil (by simp), readDigits_append] at h
      obtain ⟨m, hfront, hlast⟩ := Option.bind_eq_some_iff.1 h
      obtain ⟨d, hd, rfl⟩ := readDigits_singleton.1 hlast
      have hdigit := (digit?_eq_some_iff hbase).1 hd
      by_cases hnil : front = []
      · subst hnil
        cases hfront
        simpa using Writes.digit hdigit
      · rw [← natural?_of_ne_nil hnil] at hfront
        exact .append (ih hfront) hdigit
  · intro h
    induction h with
    | digit hdigit =>
      rw [natural?_of_ne_nil (by simp), readDigits_singleton]
      exact ⟨_, (digit?_eq_some_iff hbase).2 hdigit, by simp⟩
    | append front hdigit ih =>
      rw [natural?_of_ne_nil front.ne_nil] at ih
      rw [natural?_of_ne_nil (by simp), readDigits_append, ih, Option.bind_some,
        readDigits_singleton]
      exact ⟨_, (digit?_eq_some_iff hbase).2 hdigit, rfl⟩

/-- Numerals are made of digits of the base. -/
theorem Writes.isSome_digit? (hbase : base ≤ 16) (h : Writes base cs n) :
    ∀ c ∈ cs, (digit? base c).isSome = true := by
  have hdigit {c : Char} {d : Nat} (h : IsDigit base c d) : (digit? base c).isSome = true := by
    rw [(digit?_eq_some_iff hbase).2 h]
    rfl
  induction h with
  | digit h => exact List.forall_mem_singleton.2 (hdigit h)
  | append front h ih =>
    exact List.forall_mem_append.2 ⟨ih, List.forall_mem_singleton.2 (hdigit h)⟩

/-- Numerals in base ten are made of digits. -/
theorem Writes.isDigit (h : Writes 10 cs n) : ∀ c ∈ cs, c.isDigit = true := by
  have hall : ∀ d < 10, d.digitChar.isDigit = true ∧ d.digitChar.toUpper.isDigit = true := by decide
  have hdigit {c : Char} {d : Nat} (h : IsDigit 10 c d) : c.isDigit = true := by
    obtain ⟨hd, rfl | rfl⟩ := h
    · exact (hall d hd).1
    · exact (hall d hd).2
  induction h with
  | digit h => exact List.forall_mem_singleton.2 (hdigit h)
  | append front h ih =>
    exact List.forall_mem_append.2 ⟨ih, List.forall_mem_singleton.2 (hdigit h)⟩

/-! ## Characters -/

theorem exists_digitChar_of_mem_toDigits {base : Nat} (hlow : 1 < base) {n : Nat} {c : Char}
    (h : c ∈ Nat.toDigits base n) : ∃ d < base, c = d.digitChar := by
  induction n using Nat.strongRecOn with
  | ind n ih =>
    rw [Nat.toDigits_eq_if hlow] at h
    split at h
    · exact ⟨n, ‹_›, List.mem_singleton.1 h⟩
    · rcases List.mem_append.1 h with h | h
      · exact ih (n / base) (Nat.div_lt_self (by omega) hlow) h
      · exact ⟨n % base, Nat.mod_lt n (by omega), List.mem_singleton.1 h⟩

/-- Numerals are made of letters and digits. -/
theorem isAlphanum_of_mem_hex {width n : Nat} {c : Char} (h : c ∈ (hex width n).toList) :
    c.isAlphanum = true := by
  rw [hex, String.toList_ofList] at h
  rcases List.mem_append.1 h with h | h
  · rw [(List.mem_replicate.1 h).2]
    rfl
  · obtain ⟨d, hd, rfl⟩ := exists_digitChar_of_mem_toDigits (by decide) h
    have hall : ∀ d < 16, d.digitChar.isAlphanum = true := by decide
    exact hall d hd

theorem isDigit_of_mem_decimal {n : Nat} {c : Char} (h : c ∈ (decimal n).toList) :
    c.isDigit = true := by
  rw [decimal, String.toList_ofList] at h
  exact Nat.isDigit_of_mem_toDigits (by decide) (by decide) h

/-! ## Widths -/

theorem word32?_toNat (w : UInt32) : word32? w.toNat = some w := by
  rw [word32?, if_pos w.toNat_lt, UInt32.ofNat_toNat]

theorem word32?_eq_some_iff {m : Nat} {w : UInt32} : word32? m = some w ↔ w.toNat = m := by
  constructor
  · intro h
    obtain ⟨hlt, h⟩ := Option.ite_none_right_eq_some.1 h
    cases h
    exact UInt32.toNat_ofNat_of_lt' hlt
  · rintro rfl
    exact word32?_toNat w

theorem signed32?_toInt (v : Int32) : signed32? v.toInt = some v := by
  rw [signed32?, if_pos ⟨v.minValue_le_toInt, v.toInt_le⟩, Int32.ofInt_toInt]

theorem signed32?_eq_some_iff {z : Int} {v : Int32} : signed32? z = some v ↔ v.toInt = z := by
  constructor
  · intro h
    obtain ⟨⟨hlow, hhigh⟩, h⟩ := Option.ite_none_right_eq_some.1 h
    cases h
    have hmax : Int32.maxValue.toInt = 2 ^ 31 - 1 := rfl
    exact Int32.toInt_ofInt_of_le hlow (by omega)
  · rintro rfl
    exact signed32?_toInt v

end AppBundle.Text
