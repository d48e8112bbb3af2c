import AppBundle.Text.Blank

/-!
# Stretches of a text

A reader takes a stretch of a text for as long as the characters pass a test.
Where the stretch is known, and what follows it fails the test, both parts are
known too.  Trimming takes nothing from a text that fails the test at both ends.
-/

namespace AppBundle.Text

variable {p : Char → Bool} {front : List Char} {c : Char}

theorem takeWhile_append_cons (h : ∀ d ∈ front, p d = true) (hc : p c = false)
    (rest : List Char) : (front ++ c :: rest).takeWhile p = front := by
  rw [List.takeWhile_append_of_pos h, List.takeWhile_cons_of_neg (by simp [hc]), List.append_nil]

theorem dropWhile_append_cons (h : ∀ d ∈ front, p d = true) (hc : p c = false)
    (rest : List Char) : (front ++ c :: rest).dropWhile p = c :: rest := by
  rw [List.dropWhile_append_of_pos h, List.dropWhile_cons_of_neg (by simp [hc])]

theorem takeWhile_of_forall (h : ∀ d ∈ front, p d = true) : front.takeWhile p = front := by
  have happend : (front ++ []).takeWhile p = front ++ [] := List.takeWhile_append_of_pos h
  rwa [List.append_nil] at happend

theorem dropWhile_of_forall (h : ∀ d ∈ front, p d = true) : front.dropWhile p = [] := by
  have happend : (front ++ []).dropWhile p = [] := List.dropWhile_append_of_pos h
  rwa [List.append_nil] at happend

/-- No character of a stretch is one that it does not have. -/
theorem bne_of_not_mem (h : c ∉ front) : ∀ d ∈ front, (d != c) = true :=
  fun _ hd => bne_iff_ne.2 fun heq => h (heq ▸ hd)

/-! ## Trimming -/

theorem dropWhile_eq_self_iff {cs : List Char} :
    cs.dropWhile p = cs ↔ ∀ c ∈ cs.head?, p c = false := by
  cases cs with
  | nil => simp
  | cons c cs =>
    cases hc : p c with
    | false => simp [hc]
    | true =>
      have hlength := (List.dropWhile_suffix (l := cs) p).length_le
      rw [List.dropWhile_cons_of_pos hc]
      constructor
      · intro heq
        rw [heq, List.length_cons] at hlength
        omega
      · intro h
        rw [h c rfl] at hc
        cases hc

/-- Trimming takes nothing exactly when it stops at once at both ends. -/
theorem trimBy_eq_self_iff {cs : List Char} :
    trimBy p cs = cs ↔ (∀ c ∈ cs.head?, p c = false) ∧ ∀ c ∈ cs.getLast?, p c = false := by
  rw [← dropWhile_eq_self_iff, ← List.head?_reverse, ← dropWhile_eq_self_iff, trimBy, trimRight]
  constructor
  · intro h
    have hback := (List.dropWhile_suffix (l := (cs.dropWhile p).reverse) p).length_le
    have hfront : cs.dropWhile p = cs := by
      refine (List.dropWhile_suffix p).eq_of_length_le ?_
      rw [List.length_reverse, ← List.length_reverse, h] at hback
      exact hback
    rw [hfront] at h
    exact ⟨hfront, by rw [← List.reverse_reverse (cs.reverse.dropWhile p), h]⟩
  · rintro ⟨hfront, hback⟩
    rw [hfront, hback, List.reverse_reverse]

/-- What is dropped passes the test, and what is left does not start with a character
that does. -/
theorem exists_dropWhile (p : Char → Bool) (cs : List Char) :
    ∃ front, cs = front ++ cs.dropWhile p ∧ (∀ c ∈ front, p c = true) ∧
      ∀ c ∈ (cs.dropWhile p).head?, p c = false := by
  refine ⟨cs.takeWhile p, List.takeWhile_append_dropWhile.symm,
    List.all_eq_true.1 List.all_takeWhile, fun c hc => ?_⟩
  have hhead := List.head?_dropWhile_not p cs
  rwa [Option.mem_def.1 hc] at hhead

/-- Trimming takes a stretch away at both ends, as long as it can be. -/
theorem exists_trimBy (p : Char → Bool) (cs : List Char) :
    ∃ front back, cs = front ++ trimBy p cs ++ back ∧ (∀ c ∈ front, p c = true) ∧
      (∀ c ∈ back, p c = true) ∧ (∀ c ∈ (trimBy p cs).head?, p c = false) ∧
        ∀ c ∈ (trimBy p cs).getLast?, p c = false := by
  obtain ⟨front, hfront, hfrontBlank, hhead⟩ := exists_dropWhile p cs
  obtain ⟨back, hback, hbackBlank, hlast⟩ := exists_dropWhile p (cs.dropWhile p).reverse
  have hmiddle : cs.dropWhile p = trimBy p cs ++ back.reverse := by
    simpa [trimBy, trimRight] using congrArg List.reverse hback
  refine ⟨front, back.reverse, ?_, hfrontBlank, fun c hc => hbackBlank c (List.mem_reverse.1 hc),
    fun c hc => hhead c ?_, ?_⟩
  · rw [List.append_assoc, ← hmiddle]
    exact hfront
  · rw [hmiddle, List.head?_append, Option.mem_def.1 hc]
    rfl
  · rwa [trimBy, trimRight, List.getLast?_reverse]

theorem trimBy_of_forall {cs : List Char} (h : ∀ c ∈ cs, p c = false) : trimBy p cs = cs :=
  trimBy_eq_self_iff.2
    ⟨fun c hc => h c (List.mem_of_mem_head? hc), fun c hc => h c (List.mem_of_getLast? hc)⟩

/-- Letters and digits are not blank. -/
theorem isBlank_of_isAlphanum {c : Char} (h : c.isAlphanum = true) : isBlank c = false := by
  have hvisible : 0x30 ≤ c.val.toNat ∧ c.val.toNat ≤ 0x7a := by
    rcases Bool.or_eq_true_iff.1 h with h | h
    · rcases Bool.or_eq_true_iff.1 h with h | h
      · have hupper : 'A'.val.toNat ≤ c.val.toNat ∧ c.val.toNat ≤ 'Z'.val.toNat :=
          of_decide_eq_true h
        exact ⟨Nat.le_trans (by decide) hupper.1, Nat.le_trans hupper.2 (by decide)⟩
      · have hlower := Bool.and_eq_true_iff.1 h
        have hlow : 'a'.val.toNat ≤ c.val.toNat := of_decide_eq_true hlower.1
        have hhigh : c.val.toNat ≤ 'z'.val.toNat := of_decide_eq_true hlower.2
        exact ⟨Nat.le_trans (by decide) hlow, hhigh⟩
    · have hdigit := Bool.and_eq_true_iff.1 h
      have hhigh : c.val.toNat ≤ '9'.val.toNat := of_decide_eq_true hdigit.2
      exact ⟨of_decide_eq_true hdigit.1, Nat.le_trans hhigh (by decide)⟩
  have hvalue : c.toNat = c.val.toNat := rfl
  simp only [isBlank, Bool.or_eq_false_iff, Bool.and_eq_false_iff, beq_eq_false_iff_ne,
    decide_eq_false_iff_not]
  omega

/-! ## Pieces between separators -/

/-- No piece holds a separator. -/
theorem not_mem_of_mem_splitOn {separator : Char} {cs piece : List Char}
    (h : piece ∈ cs.splitOn separator) : separator ∉ piece := by
  induction cs generalizing piece with
  | nil =>
    cases List.mem_singleton.1 h
    exact List.not_mem_nil
  | cons c cs ih =>
    rw [List.splitOn_cons_eq_if_modifyHead] at h
    split at h
    · rcases List.mem_cons.1 h with rfl | h
      · exact List.not_mem_nil
      · exact ih h
    · rename_i hc
      obtain ⟨first, others, hsplit⟩ :=
        List.exists_cons_of_ne_nil (List.splitOn_ne_nil separator cs)
      rw [hsplit] at h ih
      rcases List.mem_cons.1 h with rfl | h
      · intro hmem
        rcases List.mem_cons.1 hmem with rfl | hmem
        · exact hc (beq_self_eq_true _)
        · exact ih List.mem_cons_self hmem
      · exact ih (List.mem_cons_of_mem _ h)

/-- Texts that are not empty and hold no separator are the pieces of what they
are joined to. -/
theorem pieces_intercalate {separator : Char} {text : String} (htext : text.toList = [separator])
    {names : List String} (h : ∀ name ∈ names, name ≠ "" ∧ separator ∉ name.toList) :
    (((text.intercalate names).toList.splitOn separator).filter (· ≠ [])).map String.ofList =
      names := by
  have hsplit : ((text.intercalate names).toList.splitOn separator).filter (· ≠ []) =
      names.map String.toList := by
    rw [String.toList_intercalate, htext]
    by_cases hnames : names.map String.toList = []
    · rw [hnames]
      rfl
    · have hseparate : ∀ l ∈ names.map String.toList, separator ∉ l := by
        intro l hl
        obtain ⟨name, hname, rfl⟩ := List.mem_map.1 hl
        exact (h name hname).2
      have hnonempty : ∀ l ∈ names.map String.toList, decide (l ≠ []) = true := by
        intro l hl
        obtain ⟨name, hname, rfl⟩ := List.mem_map.1 hl
        simpa using (h name hname).1
      rw [List.splitOn_intercalate separator hseparate hnames, List.filter_eq_self.2 hnonempty]
  rw [hsplit, List.map_map]
  exact (List.map_congr_left fun _ _ => String.ofList_toList).trans (List.map_id _)

end AppBundle.Text
