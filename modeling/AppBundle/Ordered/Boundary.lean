/-!
# The boundary of a test

In an ordered list the members below some bound come first.  `boundary` finds
where they stop, by halving: it tries the member in the middle and goes on in
the half that the answer leaves.

On a list where no member that passes follows one that fails, the boundary
divides those that pass from those that fail (`take_drop_boundary`); where all
pass it is the end (`boundary_of_forall`).  On any other list it is still a position.
-/

namespace AppBundle

variable {α : Type}

/-- The position where the members that pass a test stop. -/
def boundary (p : α → Bool) : List α → Nat
  | [] => 0
  | [a] => if p a then 1 else 0
  | a :: b :: l =>
    let half := (l.length + 2) / 2
    if (b :: l)[half - 1]?.any p then half + boundary p ((b :: l).drop (half - 1))
    else boundary p (a :: (b :: l).take (l.length + 1 - half))
termination_by l => l.length
decreasing_by
  · simp only [List.length_drop, List.length_cons]; omega
  · simp only [List.length_cons, List.length_take]; omega

theorem boundary_le_length (p : α → Bool) (l : List α) : boundary p l ≤ l.length := by
  fun_induction boundary p l with
  | case1 => simp
  | case2 => simp
  | case3 => simp
  | case4 a b l half _ ih =>
    simp only [List.length_drop, List.length_cons] at ih ⊢
    omega
  | case5 a b l half _ ih =>
    simp only [List.length_cons, List.length_take] at ih ⊢
    omega

/-- Where no member that passes follows one that fails, all before the boundary
pass and all after it fail. -/
theorem boundary_split {p : α → Bool} {l : List α} (h : l.Pairwise fun a b => p b → p a) :
    ∃ before after, l = before ++ after ∧ before.length = boundary p l ∧
      (∀ a ∈ before, p a) ∧ ∀ a ∈ after, ¬ p a := by
  fun_induction boundary p l with
  | case1 => exact ⟨[], [], rfl, rfl, List.forall_mem_nil _, List.forall_mem_nil _⟩
  | case2 a ha =>
    exact ⟨[a], [], rfl, rfl, List.forall_mem_singleton.2 ha, List.forall_mem_nil _⟩
  | case3 a ha =>
    exact ⟨[], [a], rfl, rfl, List.forall_mem_nil _, List.forall_mem_singleton.2 ha⟩
  | case4 a b l half hmiddle ih =>
    obtain ⟨x, hx, hpass⟩ := (Option.any_eq_true ..).1 hmiddle
    obtain ⟨hlt, hx⟩ := List.getElem?_eq_some_iff.1 hx
    have hsplit : a :: b :: l = (a :: (b :: l).take (half - 1)) ++ (b :: l).drop (half - 1) := by
      rw [List.cons_append, List.take_append_drop]
    have hmem : x ∈ (b :: l).drop (half - 1) := by
      rw [List.drop_eq_getElem_cons hlt, hx]
      exact List.mem_cons_self
    rw [hsplit] at h ⊢
    obtain ⟨-, hback, hcross⟩ := List.pairwise_append.1 h
    obtain ⟨before, after, heq, hlength, hbefore, hafter⟩ := ih hback
    refine ⟨(a :: (b :: l).take (half - 1)) ++ before, after, ?_, ?_, ?_, hafter⟩
    · rw [heq, List.append_assoc]
    · rw [List.length_append, List.length_cons, List.length_take_of_le (Nat.le_of_lt hlt), hlength]
      omega
    · -- The member in the middle passes, and so does all that stands before it.
      exact List.forall_mem_append.2 ⟨fun y hy => hcross y hy x hmem hpass, hbefore⟩
  | case5 a b l half hmiddle ih =>
    have hlt : half - 1 < (b :: l).length := by
      simp only [List.length_cons]
      omega
    rw [List.getElem?_eq_getElem hlt, Option.any_some] at hmiddle
    have hsplit : a :: b :: l = (a :: (b :: l).take (l.length + 1 - half)) ++
        (b :: l).drop (l.length + 1 - half) := by
      rw [List.cons_append, List.take_append_drop]
    -- The member in the middle fails, and so does all that stands after it.
    have hback : ∀ y ∈ (b :: l).drop (l.length + 1 - half), ¬ p y := by
      intro y hy hpass
      have hy := List.drop_subset_drop_left _ (show half - 1 ≤ l.length + 1 - half by omega) hy
      have hlater : ((b :: l).drop (half - 1)).Pairwise fun a b => p b → p a :=
        (List.pairwise_cons.1 h).2.drop
      rw [List.drop_eq_getElem_cons hlt] at hy hlater
      rcases List.mem_cons.1 hy with rfl | hy
      · exact hmiddle hpass
      · exact hmiddle ((List.pairwise_cons.1 hlater).1 y hy hpass)
    rw [hsplit] at h ⊢
    obtain ⟨before, after, heq, hlength, hbefore, hafter⟩ := ih (List.pairwise_append.1 h).1
    refine ⟨before, after ++ (b :: l).drop (l.length + 1 - half), ?_, hlength, hbefore, ?_⟩
    · rw [heq, List.append_assoc]
    · exact List.forall_mem_append.2 ⟨hafter, hback⟩

theorem take_drop_boundary {p : α → Bool} {l : List α} (h : l.Pairwise fun a b => p b → p a) :
    (∀ a ∈ l.take (boundary p l), p a) ∧ ∀ a ∈ l.drop (boundary p l), ¬ p a := by
  obtain ⟨before, after, heq, hlength, hbefore, hafter⟩ := boundary_split h
  rw [← hlength, heq, List.take_left, List.drop_left]
  exact ⟨hbefore, hafter⟩

/-- Where all members pass, they stop at the end. -/
theorem boundary_of_forall {p : α → Bool} {l : List α} (h : ∀ a ∈ l, p a) :
    boundary p l = l.length := by
  have hall : l.Pairwise fun a b => p b → p a :=
    List.pairwise_iff_forall_sublist.2 fun hab _ => h _ (hab.subset List.mem_cons_self)
  obtain ⟨before, after, heq, hlength, -, hafter⟩ := boundary_split hall
  have hnil : after = [] := by
    refine List.eq_nil_iff_forall_not_mem.2 fun a ha => hafter a ha (h a ?_)
    exact heq ▸ List.mem_append_right _ ha
  rw [← hlength, heq, hnil, List.append_nil]

end AppBundle
