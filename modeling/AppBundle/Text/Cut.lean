/-!
# Cutting a text in two

`cutAt` cuts a text at the first character that passes a test.  The character
itself belongs to neither part.
-/

namespace AppBundle.Text

/-- What stands before the first character that passes a test, and what stands
behind it if there is one. -/
def cutAt (p : Char → Bool) : List Char → List Char × Option (List Char)
  | [] => ([], none)
  | c :: cs => if p c then ([], some cs) else ((c :: (cutAt p cs).1), (cutAt p cs).2)

theorem cutAt_eq_none {p : Char → Bool} {cs : List Char} (h : ∀ c ∈ cs, p c = false) :
    cutAt p cs = (cs, none) := by
  induction cs with
  | nil => rfl
  | cons c cs ih =>
    have ⟨hc, hcs⟩ := List.forall_mem_cons.1 h
    simp [cutAt, hc, ih hcs]

theorem cutAt_append {p : Char → Bool} {front : List Char} (h : ∀ c ∈ front, p c = false)
    {c : Char} (hc : p c = true) (rest : List Char) :
    cutAt p (front ++ c :: rest) = (front, some rest) := by
  induction front with
  | nil => simp [cutAt, hc]
  | cons d front ih =>
    have ⟨hd, hfront⟩ := List.forall_mem_cons.1 h
    simp [cutAt, hd, ih hfront]

theorem eq_of_cutAt_none {p : Char → Bool} {cs front : List Char}
    (h : cutAt p cs = (front, none)) : cs = front ∧ ∀ c ∈ front, p c = false := by
  induction cs generalizing front with
  | nil =>
    cases h
    simp
  | cons c cs ih =>
    rw [cutAt] at h
    split at h
    · cases h
    · rename_i hc
      obtain ⟨rfl, hnone⟩ := Prod.mk.inj h
      obtain ⟨hcs, hfront⟩ := ih (Prod.ext rfl hnone)
      exact ⟨congrArg (c :: ·) hcs, List.forall_mem_cons.2 ⟨by simpa using hc, hfront⟩⟩

theorem eq_of_cutAt_some {p : Char → Bool} {cs front rest : List Char}
    (h : cutAt p cs = (front, some rest)) :
    ∃ c, p c = true ∧ cs = front ++ c :: rest ∧ ∀ d ∈ front, p d = false := by
  induction cs generalizing front with
  | nil => cases h
  | cons c cs ih =>
    rw [cutAt] at h
    split at h
    · rename_i hc
      cases h
      exact ⟨c, hc, rfl, by simp⟩
    · rename_i hc
      obtain ⟨rfl, hsome⟩ := Prod.mk.inj h
      obtain ⟨stop, hstop, hcs, hfront⟩ := ih (Prod.ext rfl hsome)
      exact ⟨stop, hstop, congrArg (c :: ·) hcs,
        List.forall_mem_cons.2 ⟨by simpa using hc, hfront⟩⟩

end AppBundle.Text
