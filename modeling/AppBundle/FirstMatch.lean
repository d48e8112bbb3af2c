/-!
# Changing the first match

Attributes and child elements are found by a test, and the first one that
passes is the one meant.  These two operations change it: `modify` leaves a
list without a match alone, `modifyOrPush` puts a new member at its end.
-/

namespace AppBundle.FirstMatch

variable {α : Type}

/-- Changes the first member that passes the test. -/
def modify (p : α → Bool) (f : α → α) : List α → List α
  | [] => []
  | a :: as => if p a then f a :: as else a :: modify p f as

/-- Changes the first member that passes the test, or puts `new` at the end. -/
def modifyOrPush (p : α → Bool) (f : α → α) (new : α) : List α → List α
  | [] => [new]
  | a :: as => if p a then f a :: as else a :: modifyOrPush p f new as

theorem modifyOrPush_of_find?_none {p : α → Bool} {f : α → α} {new : α} {l : List α}
    (h : l.find? p = none) : modifyOrPush p f new l = l ++ [new] := by
  induction l with
  | nil => rfl
  | cons a as ih =>
    simp only [List.find?_cons] at h
    split at h
    · contradiction
    · rename_i ha
      simp [modifyOrPush, ha, ih h]

theorem modifyOrPush_of_find?_some {p : α → Bool} {f : α → α} {new a : α} {l : List α}
    (h : l.find? p = some a) : modifyOrPush p f new l = modify p f l := by
  induction l with
  | nil => contradiction
  | cons b bs ih =>
    simp only [List.find?_cons] at h
    split at h
    · rename_i hb
      simp [modifyOrPush, modify, hb]
    · rename_i hb
      simp [modifyOrPush, modify, hb, ih h]

/-- Only what a change makes of the members that pass the test matters. -/
theorem modify_congr {p : α → Bool} {f g : α → α} (h : ∀ a, p a → f a = g a) (l : List α) :
    modify p f l = modify p g l := by
  induction l with
  | nil => rfl
  | cons b bs ih =>
    rw [modify, modify, ih]
    split
    · rename_i hb
      rw [h b hb]
    · rfl

/-- Changing the first match leaves what stands before and after it. -/
theorem modify_of_find?_some {p : α → Bool} {a : α} {l : List α} (h : l.find? p = some a)
    (f : α → α) : ∃ before after, l = before ++ a :: after ∧
      modify p f l = before ++ f a :: after := by
  induction l with
  | nil => cases h
  | cons b bs ih =>
    rw [modify]
    split
    · rename_i hb
      rw [List.find?_cons_of_pos hb] at h
      cases h
      exact ⟨[], bs, rfl, rfl⟩
    · rename_i hb
      rw [List.find?_cons_of_neg hb] at h
      obtain ⟨before, after, hbs, hmodify⟩ := ih h
      rw [hbs] at hmodify ⊢
      exact ⟨b :: before, after, rfl, congrArg (b :: ·) hmodify⟩

theorem modify_append_cons {p : α → Bool} {a : α} {before : List α} (hbefore : ∀ b ∈ before, ¬ p b)
    (ha : p a) (f : α → α) (after : List α) :
    modify p f (before ++ a :: after) = before ++ f a :: after := by
  induction before with
  | nil => exact if_pos ha
  | cons b bs ih =>
    obtain ⟨hb, hbs⟩ := List.forall_mem_cons.1 hbefore
    rw [List.cons_append, modify, if_neg hb, ih hbs, List.cons_append]

/-- Two changes are one when the second finds what the first changed or made. -/
theorem modifyOrPush_modifyOrPush {p q : α → Bool} {f g h : α → α} {new : α} {l : List α}
    (hq : ∀ a ∈ l, q a → p a) (hf : ∀ a ∈ l, p a → q (f a) ∧ g (f a) = h a)
    (hnew : q (f new) ∧ g (f new) = h new) (new' : α) :
    modifyOrPush q g new' (modifyOrPush p f (f new) l) = modifyOrPush p h (h new) l := by
  induction l with
  | nil => exact (if_pos hnew.1).trans (congrArg (· :: []) hnew.2)
  | cons b bs ih =>
    obtain ⟨hqb, hqbs⟩ := List.forall_mem_cons.1 hq
    obtain ⟨hfb, hfbs⟩ := List.forall_mem_cons.1 hf
    by_cases hb : p b
    · rw [modifyOrPush, if_pos hb, modifyOrPush, if_pos (hfb hb).1, modifyOrPush, if_pos hb,
        (hfb hb).2]
    · rw [modifyOrPush, if_neg hb, modifyOrPush, if_neg fun h => hb (hqb h), modifyOrPush,
        if_neg hb, ih hqbs hfbs]

/-- What the members have, they have after a change that keeps it. -/
theorem forall_mem_modify {P : α → Prop} {p : α → Bool} {f : α → α} {l : List α}
    (hf : ∀ a, P a → P (f a)) (hl : ∀ a ∈ l, P a) : ∀ a ∈ modify p f l, P a := by
  induction l with
  | nil => exact hl
  | cons b bs ih =>
    rw [List.forall_mem_cons] at hl
    rw [modify]
    split
    · exact List.forall_mem_cons.2 ⟨hf b hl.1, hl.2⟩
    · exact List.forall_mem_cons.2 ⟨hl.1, ih hl.2⟩

theorem forall_mem_modifyOrPush {P : α → Prop} {p : α → Bool} {f : α → α} {new : α} {l : List α}
    (hf : ∀ a, P a → P (f a)) (hnew : P new) (hl : ∀ a ∈ l, P a) :
    ∀ a ∈ modifyOrPush p f new l, P a := by
  cases hfind : l.find? p with
  | none =>
    rw [modifyOrPush_of_find?_none hfind, List.forall_mem_append, List.forall_mem_singleton]
    exact ⟨hl, hnew⟩
  | some b =>
    rw [modifyOrPush_of_find?_some hfind]
    exact forall_mem_modify hf hl

/-- What a change leaves alone in each match, it leaves alone in the list. -/
theorem map_modify {β : Type} {g : α → β} {p : α → Bool} {f : α → α}
    (hf : ∀ a, p a → g (f a) = g a) (l : List α) : (modify p f l).map g = l.map g := by
  induction l with
  | nil => rfl
  | cons b bs ih =>
    rw [modify]
    split
    · rename_i hb
      rw [List.map_cons, List.map_cons, hf b hb]
    · rw [List.map_cons, List.map_cons, ih]

/-- What stands once in the members stands once after a change that leaves it
alone, when a new member brings nothing that is there. -/
theorem nodup_map_modifyOrPush {β : Type} {g : α → β} {p : α → Bool} {f : α → α} {new : α}
    {l : List α} (hl : (l.map g).Nodup) (hf : ∀ a, p a → g (f a) = g a)
    (hnew : l.find? p = none → g new ∉ l.map g) : ((modifyOrPush p f new l).map g).Nodup := by
  cases hfind : l.find? p with
  | none =>
    rw [modifyOrPush_of_find?_none hfind, List.map_append, List.map_singleton,
      (List.perm_append_singleton _ _).nodup_iff]
    exact List.nodup_cons.2 ⟨hnew hfind, hl⟩
  | some a =>
    rw [modifyOrPush_of_find?_some hfind, map_modify hf]
    exact hl

/-! ## Looking after a change -/

section Find

variable {p q : α → Bool} {f : α → α} {new : α} {l : List α}

/-- Two tests find the same when the first that passes one of them passes both. -/
theorem find?_eq_of_first (hp : ∀ a, p a → q a) (hfirst : ∀ a, l.find? q = some a → p a) :
    l.find? p = l.find? q := by
  induction l with
  | nil => rfl
  | cons b bs ih =>
    by_cases hqb : q b
    · rw [List.find?_cons_of_pos hqb, List.find?_cons_of_pos]
      exact hfirst b (List.find?_cons_of_pos hqb)
    · rw [List.find?_cons_of_neg hqb] at hfirst ⊢
      rw [List.find?_cons_of_neg fun hb => hqb (hp b hb)]
      exact ih hfirst

/-- The member that was changed, or made, is found by any test that goes no
further than it: the test passes nothing before it, and passes what the change
leaves. -/
theorem find?_modifyOrPush_self (hfirst : ∀ a, l.find? q = some a → p a)
    (hf : ∀ a, l.find? p = some a → q (f a)) (hnew : q (f new)) :
    (modifyOrPush p f (f new) l).find? q = some (f ((l.find? p).getD new)) := by
  induction l with
  | nil => exact List.find?_cons_of_pos hnew
  | cons b bs ih =>
    rw [modifyOrPush]
    split
    · rename_i hb
      rw [List.find?_cons_of_pos hb] at hf ⊢
      exact List.find?_cons_of_pos (hf b rfl)
    · rename_i hb
      have hqb : ¬ q b := fun hqb => hb (hfirst b (List.find?_cons_of_pos hqb))
      rw [List.find?_cons_of_neg hqb] at hfirst ⊢
      rw [List.find?_cons_of_neg hb] at hf ⊢
      exact ih hfirst hf

theorem find?_modify_self {a : α} (h : l.find? p = some a) (hf : p (f a)) :
    (modify p f l).find? p = some (f a) := by
  have hself : (modifyOrPush p f (f a) l).find? p = some (f ((l.find? p).getD a)) := by
    refine find?_modifyOrPush_self (fun _ => List.find?_some) ?_ hf
    rintro b hb
    cases h.symm.trans hb
    exact hf
  rwa [modifyOrPush_of_find?_some h, h] at hself

/-- A test that passes a member which is not changed, before any that is, finds it still. -/
theorem find?_modifyOrPush_of_first (hp : ∀ a, p a → q a) {a : α} (h : l.find? q = some a)
    (ha : ¬ p a) : (modifyOrPush p f new l).find? q = some a := by
  induction l with
  | nil => cases h
  | cons b bs ih =>
    by_cases hqb : q b
    · rw [List.find?_cons_of_pos hqb] at h
      cases h
      rw [modifyOrPush, if_neg ha]
      exact List.find?_cons_of_pos hqb
    · rw [List.find?_cons_of_neg hqb] at h
      rw [modifyOrPush, if_neg fun hb => hqb (hp b hb), List.find?_cons_of_neg hqb]
      exact ih h

/-- When the change takes the first match of a test out of it, the second one is found. -/
theorem find?_modifyOrPush_of_lost {a : α} (h : l.find? p = some a) (hq : l.find? q = some a)
    (ha : ¬ q (f a)) : (modifyOrPush p f new l).find? q = (l.filter q)[1]? := by
  induction l with
  | nil => cases h
  | cons b bs ih =>
    by_cases hb : q b
    · rw [List.find?_cons_of_pos hb] at hq
      cases hq
      rw [modifyOrPush, if_pos (List.find?_some h), List.find?_cons_of_neg ha,
        List.filter_cons_of_pos hb, List.getElem?_cons_succ, ← List.head?_eq_getElem?,
        List.head?_filter]
    · rw [List.find?_cons_of_neg hb] at hq
      have hpb : ¬ p b := by
        intro hpb
        rw [List.find?_cons_of_pos hpb] at h
        cases h
        exact hb (List.find?_some hq)
      rw [List.find?_cons_of_neg hpb] at h
      rw [modifyOrPush, if_neg hpb, List.find?_cons_of_neg hb, List.filter_cons_of_neg hb]
      exact ih h hq

/-- A test whose first match is not the one that is changed finds it still, unless
the change brings one into the test. -/
theorem find?_modifyOrPush_of_apart (hf : ∀ a, l.find? p = some a → l.find? q ≠ some a ∧ ¬ q (f a))
    (hnew : ¬ q new) : (modifyOrPush p f new l).find? q = l.find? q := by
  induction l with
  | nil => exact List.find?_cons_of_neg hnew
  | cons b bs ih =>
    rw [modifyOrPush]
    by_cases hpb : p b
    · obtain ⟨hfirst, hfb⟩ := hf b (List.find?_cons_of_pos hpb)
      have hqb : ¬ q b := fun hqb => hfirst (List.find?_cons_of_pos hqb)
      rw [if_pos hpb, List.find?_cons_of_neg hfb, List.find?_cons_of_neg hqb]
    · rw [if_neg hpb]
      by_cases hqb : q b
      · rw [List.find?_cons_of_pos hqb, List.find?_cons_of_pos hqb]
      · rw [List.find?_cons_of_neg hqb, List.find?_cons_of_neg hqb]
        refine ih fun a ha => ?_
        rw [List.find?_cons_of_neg hpb, List.find?_cons_of_neg hqb] at hf
        exact hf a ha

/-- What is read off the first member that passes a test stays, when the change
keeps the test and the reading, and nothing is read off a new member. -/
theorem bind_find?_modifyOrPush {β : Type} {g : α → Option β}
    (hf : ∀ a ∈ l, p a → q (f a) = q a ∧ (q a → g (f a) = g a)) (hnew : q new → g new = none) :
    ((modifyOrPush p f new l).find? q).bind g = (l.find? q).bind g := by
  induction l with
  | nil =>
    by_cases hq : q new
    · rw [modifyOrPush, List.find?_cons_of_pos hq]
      exact hnew hq
    · rw [modifyOrPush, List.find?_cons_of_neg hq]
  | cons b bs ih =>
    obtain ⟨hb, hbs⟩ := List.forall_mem_cons.1 hf
    rw [modifyOrPush]
    split
    · rename_i hpb
      obtain ⟨hq, hg⟩ := hb hpb
      by_cases hqb : q b
      · rw [List.find?_cons_of_pos (hq.trans hqb), List.find?_cons_of_pos hqb]
        exact hg hqb
      · rw [List.find?_cons_of_neg (by rwa [hq]), List.find?_cons_of_neg hqb]
    · by_cases hqb : q b
      · rw [List.find?_cons_of_pos hqb, List.find?_cons_of_pos hqb]
      · rw [List.find?_cons_of_neg hqb, List.find?_cons_of_neg hqb]
        exact ih hbs

/-- A test that passes nothing of what is changed or made sees no change. -/
theorem filter_modifyOrPush_of_disjoint (hf : ∀ a ∈ l, p a → q a = false ∧ q (f a) = false)
    (hnew : q new = false) : (modifyOrPush p f new l).filter q = l.filter q := by
  induction l with
  | nil => simp [modifyOrPush, hnew]
  | cons b bs ih =>
    obtain ⟨hb, hbs⟩ := List.forall_mem_cons.1 hf
    rw [modifyOrPush]
    split
    · rename_i hpb
      obtain ⟨hq, hqf⟩ := hb hpb
      simp [hq, hqf]
    · rw [List.filter_cons, List.filter_cons, ih hbs]

theorem find?_modifyOrPush_of_disjoint (hf : ∀ a ∈ l, p a → q a = false ∧ q (f a) = false)
    (hnew : q new = false) : (modifyOrPush p f new l).find? q = l.find? q := by
  rw [← List.head?_filter, ← List.head?_filter, filter_modifyOrPush_of_disjoint hf hnew]

end Find

end AppBundle.FirstMatch
