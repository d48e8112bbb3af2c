import AppBundle.Proofs.Text.Numeral
import AppBundle.Proofs.Text.Span
import AppBundle.Text.Front

/-!
# What a reader of a text takes

For each reader there is a lemma that says when it takes a value and leaves a
rest.  A word is taken where it stands (`tagBy_eq_some_iff`).  A run is taken as
far as it goes: its characters pass the test, and the rest does not start with
one that does (`run1_eq_some_iff`).  The digits of a number are such a run
(`digits_of_writes`).

A chain takes what its steps take one after the other (`bind_eq_some_iff`).  Of
two readers in order the second is asked only where the first takes nothing
(`orElse_eq_some_iff`), and no reader is asked again when the text is not read to
its end (`whole_eq_some_iff`).
-/

namespace AppBundle.Text.Front

variable {α β : Type} {m n : Front α} {f : α → Front β} {cs rest front : List Char}

/-! ## Chains and choices -/

theorem bind_eq_some_iff {p : β × List Char} :
    (m >>= f) cs = some p ↔ ∃ a rest, m cs = some (a, rest) ∧ f a rest = some p := by
  show (m cs).bind (fun q => f q.1 q.2) = some p ↔ _
  rw [Option.bind_eq_some_iff, Prod.exists]

theorem bind_of_some {a : α} (h : m cs = some (a, rest)) : (m >>= f) cs = f a rest := by
  show (m cs).bind (fun q => f q.1 q.2) = _
  rw [h, Option.bind_some]

theorem bind_of_none (h : m cs = none) : (m >>= f) cs = none := by
  show (m cs).bind (fun q => f q.1 q.2) = none
  rw [h, Option.bind_none]

/-- A step that takes nothing leaves the whole text. -/
theorem lift_eq_some_iff {x : Option α} {a : α} :
    (liftM x : Front α) cs = some (a, rest) ↔ x = some a ∧ rest = cs := by
  cases x with
  | none => exact iff_of_false nofun nofun
  | some b =>
    show some (b, cs) = some (a, rest) ↔ _
    simp only [Option.some.injEq, Prod.mk.injEq, eq_comm (a := cs)]

/-- Where the first reader takes something the second is not asked. -/
theorem orElse_of_some {p : α × List Char} (h : m cs = some p) : (m <|> n) cs = some p := by
  show (m cs <|> n cs) = some p
  rw [h]
  rfl

theorem orElse_of_none (h : m cs = none) : (m <|> n) cs = n cs := by
  show (m cs <|> n cs) = n cs
  rw [h]
  rfl

theorem orElse_eq_some_iff {p : α × List Char} :
    (m <|> n) cs = some p ↔ m cs = some p ∨ m cs = none ∧ n cs = some p := by
  cases hm : m cs with
  | none => simp [orElse_of_none hm]
  | some q => simp [orElse_of_some hm]

/-- A text is read to its end when the reader leaves nothing. -/
theorem whole_eq_some_iff {a : α} : m.whole cs = some a ↔ m cs = some (a, []) := by
  rw [whole]
  split
  · rename_i b hm
    simp [hm]
  · rename_i hno
    exact iff_of_false nofun (hno a)

/-! ## Words -/

theorem satisfy_eq_some_iff {p : Char → Bool} {c : Char} :
    satisfy p cs = some (c, rest) ↔ cs = c :: rest ∧ p c = true := by
  cases cs with
  | nil => exact iff_of_false nofun nofun
  | cons d ds =>
    simp only [satisfy, Option.ite_none_right_eq_some, Option.some.injEq, Prod.mk.injEq,
      List.cons.injEq]
    constructor
    · rintro ⟨hd, rfl, rfl⟩
      exact ⟨⟨rfl, rfl⟩, hd⟩
    · rintro ⟨⟨rfl, rfl⟩, hd⟩
      exact ⟨hd, rfl, rfl⟩

theorem tagBy_eq_some_iff {key : Char → Char} {word : List Char} :
    tagBy key word cs = some ((), rest) ↔
      ∃ front, cs = front ++ rest ∧ front.map key = word.map key := by
  induction word generalizing cs with
  | nil => simp [tagBy]
  | cons w ws ih =>
    cases cs with
    | nil => simp [tagBy]
    | cons c cs =>
      rw [tagBy, Option.ite_none_right_eq_some, ih]
      constructor
      · rintro ⟨hc, front, rfl, hfront⟩
        exact ⟨c :: front, rfl, by rw [List.map_cons, hc, hfront, List.map_cons]⟩
      · rintro ⟨front, heq, hfront⟩
        cases front with
        | nil => cases hfront
        | cons d front =>
          obtain ⟨rfl, rfl⟩ := List.cons.inj heq
          obtain ⟨hc, hfront⟩ := List.cons.inj hfront
          exact ⟨hc, front, rfl, hfront⟩

theorem tag_eq_some_iff {word : List Char} : tag word cs = some ((), rest) ↔ cs = word ++ rest := by
  rw [tag, tagBy_eq_some_iff, List.map_id]
  constructor
  · rintro ⟨front, rfl, hfront⟩
    rw [← hfront, List.map_id]
  · rintro rfl
    exact ⟨word, rfl, List.map_id _⟩

/-- A text that starts with another character does not start with the word. -/
theorem tag_of_ne {word : List Char} {c w : Char} (h : c ≠ w) : tag (w :: word) (c :: cs) = none :=
  if_neg h

/-! ## Runs -/

theorem run_eq_some_iff {p : Char → Bool} :
    run p cs = some (front, rest) ↔
      cs = front ++ rest ∧ (∀ c ∈ front, p c = true) ∧ ∀ c ∈ rest.head?, p c = false := by
  rw [run, Option.some.injEq, Prod.mk.injEq]
  constructor
  · rintro ⟨rfl, rfl⟩
    refine ⟨List.takeWhile_append_dropWhile.symm, List.all_eq_true.1 List.all_takeWhile, ?_⟩
    obtain ⟨-, -, -, hhead⟩ := exists_dropWhile p cs
    exact hhead
  · rintro ⟨rfl, hfront, hhead⟩
    cases rest with
    | nil => simp [takeWhile_of_forall hfront, dropWhile_of_forall hfront]
    | cons c rest =>
      have hc := hhead c rfl
      exact ⟨takeWhile_append_cons hfront hc rest, dropWhile_append_cons hfront hc rest⟩

theorem run1_eq_some_iff {p : Char → Bool} :
    run1 p cs = some (front, rest) ↔ front ≠ [] ∧ run p cs = some (front, rest) := by
  rw [run1, run, Option.some.injEq, Prod.mk.injEq]
  split
  · rename_i hnil
    rw [hnil]
    exact iff_of_false nofun fun h => h.1 h.2.1.symm
  · rename_i hne
    rw [Option.some.injEq, Prod.mk.injEq]
    constructor
    · rintro ⟨hfront, hrest⟩
      exact ⟨hfront ▸ hne, hfront, hrest⟩
    · exact And.right

/-! ## Numbers -/

section Numbers

variable {base n : Nat}

theorem digits_eq_some_iff :
    digits base cs = some (front, rest) ↔ cs = front ++ rest ∧ front ≠ [] ∧
      (∀ c ∈ front, (digit? base c).isSome = true) ∧ ∀ c ∈ rest.head?, digit? base c = none := by
  simp only [digits, run1_eq_some_iff, run_eq_some_iff, Option.isSome_eq_false_iff,
    Option.isNone_iff_eq_none]
  exact and_left_comm

/-- The digits of a number are taken, all of them. -/
theorem digits_of_writes (hbase : base ≤ 16) (h : Writes base front n)
    (hrest : ∀ c ∈ rest.head?, digit? base c = none) :
    digits base (front ++ rest) = some (front, rest) :=
  digits_eq_some_iff.2 ⟨rfl, h.ne_nil, h.isSome_digit? hbase, hrest⟩

/-- A number that was taken is written by the digits in front of the rest, and no digit follows. -/
theorem writes_of_digits (hbase : base ≤ 16) (h : digits base cs = some (front, rest))
    (hn : natural? base front = some n) :
    cs = front ++ rest ∧ Writes base front n ∧ ∀ c ∈ rest.head?, digit? base c = none := by
  obtain ⟨hcs, -, -, hrest⟩ := digits_eq_some_iff.1 h
  exact ⟨hcs, (natural?_eq_some_iff hbase).1 hn, hrest⟩

/-- A minus sign is taken with the digits behind it. -/
theorem signedDigits_minus (h : digits 10 cs = some (front, rest)) :
    signedDigits ('-' :: cs) = some ('-' :: front, rest) := by
  have hsign : sign ('-' :: cs) = some (['-'], cs) := rfl
  rw [signedDigits, bind_of_some hsign, bind_of_some h]
  rfl

/-- Digits without a sign are taken alone. -/
theorem signedDigits_of_digits (h : digits 10 cs = some (front, rest)) :
    signedDigits cs = some (front, rest) := by
  obtain ⟨rfl, hne, hdigits, -⟩ := digits_eq_some_iff.1 h
  obtain ⟨c, front, rfl⟩ := List.exists_cons_of_ne_nil hne
  have hc : c ≠ '-' := by
    rintro rfl
    cases hdigits '-' List.mem_cons_self
  have hsign : sign (c :: front ++ rest) = some ([], c :: front ++ rest) :=
    orElse_of_none (bind_of_none (tag_of_ne hc))
  rw [signedDigits, bind_of_some hsign, bind_of_some h]
  rfl

/-- What is taken as a signed number are digits, with or without a minus sign. -/
theorem signedDigits_eq_some_iff {text : List Char} :
    signedDigits cs = some (text, rest) ↔
      digits 10 cs = some (text, rest) ∨
        ∃ behind front, cs = '-' :: behind ∧ text = '-' :: front ∧
          digits 10 behind = some (front, rest) := by
  constructor
  · intro h
    obtain ⟨sign, behind, hsign, h⟩ := bind_eq_some_iff.1 h
    obtain ⟨front, rest', hdigits, h⟩ := bind_eq_some_iff.1 h
    cases h
    rcases orElse_eq_some_iff.1 hsign with hminus | ⟨-, hnone⟩
    · obtain ⟨⟨⟩, behind', htag, hminus⟩ := bind_eq_some_iff.1 hminus
      cases hminus
      exact .inr ⟨behind, front, tag_eq_some_iff.1 htag, rfl, hdigits⟩
    · cases hnone
      exact .inl hdigits
  · rintro (h | ⟨behind, front, rfl, rfl, h⟩)
    · exact signedDigits_of_digits h
    · exact signedDigits_minus h

end Numbers

end AppBundle.Text.Front
