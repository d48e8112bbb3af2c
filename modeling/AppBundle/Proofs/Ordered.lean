import AppBundle.Ordered.Map
import AppBundle.Ordered.Set

/-!
# Members of ordered collections

A set has exactly the members of the list it was made from
(`OrderedSet.mem_ofList`), and no two sets have the same ones
(`OrderedSet.ext_mem`).  Binding a key in a map changes what that key is
bound to and nothing else (`OrderedMap.get?_insert`), and a map whose keys are
bound again keeps its keys (`OrderedMap.keys_insert`).  A map is what its keys
are bound to (`OrderedMap.ext_get?`).
-/

namespace AppBundle

/-- No member of a list in a strict order repeats. -/
theorem nodup_of_pairwise {α : Type} {r : α → α → Prop} (hr : ∀ a b, r a b → ¬ r b a)
    {l : List α} (hl : l.Pairwise r) : l.Nodup := by
  refine hl.imp fun hab heq => ?_
  subst heq
  exact hr _ _ hab hab

/-- Two lists in one strict order with the same members are the same. -/
theorem eq_of_pairwise_of_mem_iff {α : Type} {r : α → α → Prop} (hr : ∀ a b, r a b → ¬ r b a)
    {l l' : List α} (hl : l.Pairwise r) (hl' : l'.Pairwise r) (h : ∀ a, a ∈ l ↔ a ∈ l') :
    l = l' := by
  have hnodup := nodup_of_pairwise hr hl
  have hperm := (List.perm_ext_iff_of_nodup hnodup (nodup_of_pairwise hr hl')).2 h
  exact hperm.eq_of_pairwise (fun a b _ _ hab hba => absurd hba (hr a b hab)) hl hl'

/-! ## Sets -/

namespace OrderedSet

variable {α : Type} [LT α]

theorem isEmpty_eq_false_iff {s : OrderedSet α} : s.isEmpty = false ↔ ∃ a, a ∈ s :=
  List.isEmpty_eq_false_iff_exists_mem

instance {p : α → Prop} [DecidablePred p] (s : OrderedSet α) : Decidable (∀ a ∈ s, p a) :=
  inferInstanceAs (Decidable (∀ a ∈ s.toList, p a))

variable [DecidableLT α]

/-- Insertion into a list keeps its members. -/
theorem mem_insertList_of_mem {a x : α} {l : List α} (h : x ∈ l) : x ∈ insertList a l := by
  induction l with
  | nil => cases h
  | cons b bs ih =>
    simp only [insertList]
    split
    · exact List.mem_cons_of_mem _ h
    · split
      · rcases List.mem_cons.1 h with rfl | h
        · exact List.mem_cons_self
        · exact List.mem_cons_of_mem _ (ih h)
      · exact h

variable [LE α] [Std.IsLinearOrder α] [Std.LawfulOrderLT α]

/-- Insertion into a list adds the member. -/
theorem mem_insertList_self (a : α) (l : List α) : a ∈ insertList a l := by
  induction l with
  | nil => exact List.mem_cons_self
  | cons b bs ih =>
    simp only [insertList]
    split
    · exact List.mem_cons_self
    · rename_i hab
      split
      · exact List.mem_cons_of_mem _ ih
      · rename_i hba
        rw [Std.le_antisymm (Std.not_lt.1 hba) (Std.not_lt.1 hab)]
        exact List.mem_cons_self

theorem mem_insert {a x : α} {s : OrderedSet α} : x ∈ s.insert a ↔ x = a ∨ x ∈ s := by
  constructor
  · exact mem_of_mem_insertList
  · rintro (rfl | h)
    · exact mem_insertList_self x s.toList
    · exact mem_insertList_of_mem h

/-- A set has the members of the list that it was made from. -/
theorem mem_ofList {x : α} {l : List α} : x ∈ ofList l ↔ x ∈ l := by
  have hfold : ∀ (s : OrderedSet α) (l : List α),
      x ∈ l.foldl (fun s a => s.insert a) s ↔ x ∈ s ∨ x ∈ l := by
    intro s l
    induction l generalizing s with
    | nil => simp
    | cons a as ih =>
      rw [List.foldl_cons, ih, mem_insert, List.mem_cons]
      grind
  rw [ofList, hfold]
  exact ⟨fun h => h.resolve_left List.not_mem_nil, .inr⟩

omit [DecidableLT α] in
/-- Sets with the same members are the same. -/
theorem ext_mem {s t : OrderedSet α} (h : ∀ a, a ∈ s ↔ a ∈ t) : s = t := by
  have hlists := eq_of_pairwise_of_mem_iff
    (fun _ _ hab hba => Std.lt_irrefl (Std.lt_trans hab hba)) s.ascending t.ascending h
  cases s
  cases t
  cases hlists
  rfl

theorem ofList_toList (s : OrderedSet α) : ofList s.toList = s :=
  ext_mem fun _ => mem_ofList

/-- A set has as many members as the list that it was made from, if none repeats there. -/
theorem length_ofList {l : List α} (h : l.Nodup) : (ofList l).toList.length = l.length := by
  have hnodup := nodup_of_pairwise (fun _ _ hab hba => Std.lt_irrefl (Std.lt_trans hab hba))
    (ofList l).ascending
  exact ((List.perm_ext_iff_of_nodup hnodup h).2 fun _ => mem_ofList).length_eq

end OrderedSet

/-! ## Maps -/

namespace OrderedMap

variable {κ ν : Type} [DecidableEq κ]

theorem lookup_cons_of_ne {j : κ} {b : κ × ν} (h : j ≠ b.1) (l : List (κ × ν)) :
    (b :: l).lookup j = l.lookup j := by
  rw [List.lookup_cons, beq_false_of_ne h]

variable [LT κ]

theorem get?_erase (m : OrderedMap κ ν) (k j : κ) :
    (m.erase k).get? j = if j = k then none else m.get? j := by
  show (m.toList.filter (·.1 ≠ k)).lookup j = if j = k then none else m.toList.lookup j
  split
  · rename_i hjk
    rw [List.lookup_eq_none_iff]
    intro b hb
    have hne := (List.mem_filter.1 hb).2
    simp only [decide_eq_true_eq] at hne
    rw [hjk]
    exact bne_iff_ne.2 (Ne.symm hne)
  · rename_i hjk
    induction m.toList with
    | nil => rfl
    | cons b bs ih =>
      by_cases hb : b.1 = k
      · rw [List.filter_cons_of_neg (by simpa using hb), ih,
          lookup_cons_of_ne (fun heq => hjk (heq.trans hb))]
      · rw [List.filter_cons_of_pos (by simpa using hb), List.lookup_cons, List.lookup_cons, ih]

variable [DecidableLT κ] [LE κ] [Std.LawfulOrderLT κ]

theorem lookup_insertList_self (k : κ) (v : ν) (l : List (κ × ν)) :
    (insertList k v l).lookup k = some v := by
  induction l with
  | nil => exact List.lookup_cons_self
  | cons b bs ih =>
    rw [insertList]
    split
    · exact List.lookup_cons_self
    · split
      · rename_i hbk
        have hne : k ≠ b.1 := by
          intro heq
          exact Std.lt_irrefl (heq ▸ hbk)
        rw [lookup_cons_of_ne hne, ih]
      · exact List.lookup_cons_self

variable [Std.IsLinearOrder κ]

theorem lookup_insertList_of_ne {j k : κ} (h : j ≠ k) (v : ν) (l : List (κ × ν)) :
    (insertList k v l).lookup j = l.lookup j := by
  induction l with
  | nil => exact lookup_cons_of_ne h []
  | cons b bs ih =>
    rw [insertList]
    split
    · exact lookup_cons_of_ne h (b :: bs)
    · rename_i hkb
      split
      · rw [List.lookup_cons, List.lookup_cons, ih]
      · rename_i hbk
        -- Neither key is below the other, so the binding that goes is one of `k`.
        have hkey : k = b.1 := Std.le_antisymm (Std.not_lt.1 hbk) (Std.not_lt.1 hkb)
        rw [lookup_cons_of_ne h, lookup_cons_of_ne (hkey ▸ h)]

/-- Binding a key changes what it is bound to, and no other key. -/
theorem get?_insert (m : OrderedMap κ ν) (k : κ) (v : ν) (j : κ) :
    (m.insert k v).get? j = if j = k then some v else m.get? j := by
  show (insertList k v m.toList).lookup j = if j = k then some v else m.toList.lookup j
  split
  · rename_i hjk
    rw [hjk, lookup_insertList_self]
  · exact lookup_insertList_of_ne ‹_› v m.toList

/-- Of the values that a list gives a key, the map has the last one. -/
theorem get?_ofList (l : List (κ × ν)) (k : κ) : (ofList l).get? k = l.reverse.lookup k := by
  have hfold : ∀ m : OrderedMap κ ν,
      (l.foldl (fun m b => m.insert b.1 b.2) m).get? k = (l.reverse.lookup k).or (m.get? k) := by
    induction l with
    | nil => exact fun _ => rfl
    | cons b bs ih =>
      intro m
      rw [List.foldl_cons, ih, get?_insert, List.reverse_cons, List.lookup_append, Option.or_assoc,
        List.lookup_cons, List.lookup_nil]
      by_cases hk : k = b.1
      · rw [if_pos hk, beq_iff_eq.2 hk]
        rfl
      · rw [if_neg hk, beq_false_of_ne hk]
        rfl
  exact (hfold ∅).trans Option.or_none

/-- Binding a key again leaves the keys as they are. -/
theorem keys_insert {m : OrderedMap κ ν} {k : κ} {w : ν} (h : m.get? k = some w) (v : ν) :
    (m.insert k v).keys = m.keys := by
  show (insertList k v m.toList).map (·.1) = m.toList.map (·.1)
  replace h : m.toList.lookup k = some w := h
  have hascending := m.ascending
  generalize m.toList = l at h hascending ⊢
  induction l with
  | nil => cases h
  | cons b bs ih =>
    obtain ⟨hb, hbs⟩ := List.pairwise_cons.1 hascending
    rw [insertList]
    split
    · rename_i hkb
      -- All keys are above `k`, which is bound nevertheless.
      exfalso
      have hnone : (b :: bs).lookup k = none := by
        rw [List.lookup_eq_none_iff]
        intro c hc
        have hkc : k < c.1 := by
          rcases List.mem_cons.1 hc with rfl | hc
          · exact hkb
          · exact Std.lt_trans hkb (hb c hc)
        refine bne_iff_ne.2 ?_
        intro heq
        exact Std.lt_irrefl (heq ▸ hkc)
      rw [hnone] at h
      cases h
    · rename_i hkb
      split
      · rename_i hbk
        have hne : k ≠ b.1 := by
          intro heq
          exact Std.lt_irrefl (heq ▸ hbk)
        rw [lookup_cons_of_ne hne] at h
        rw [List.map_cons, List.map_cons, ih h hbs]
      · rename_i hbk
        have hkey : k = b.1 := Std.le_antisymm (Std.not_lt.1 hbk) (Std.not_lt.1 hkb)
        rw [List.map_cons, List.map_cons, hkey]

omit [DecidableLT κ] [Std.IsLinearOrder κ] in
/-- The bindings of a map are those that looking up finds. -/
theorem mem_toList_iff {m : OrderedMap κ ν} {k : κ} {v : ν} :
    (k, v) ∈ m.toList ↔ m.get? k = some v := by
  rw [get?, List.lookup_eq_some_iff]
  constructor
  · intro h
    obtain ⟨front, back, hsplit⟩ := List.append_of_mem h
    refine ⟨front, back, hsplit, ?_⟩
    intro b hb
    have hascending := m.ascending
    rw [hsplit, List.pairwise_append] at hascending
    have hlt := hascending.2.2 b hb (k, v) List.mem_cons_self
    refine bne_iff_ne.2 ?_
    intro heq
    exact Std.lt_irrefl (heq ▸ hlt)
  · rintro ⟨front, back, hsplit, -⟩
    simp [hsplit]

omit [DecidableLT κ] in
/-- Maps that bind each key alike are the same. -/
theorem ext_get? {m n : OrderedMap κ ν} (h : ∀ k, m.get? k = n.get? k) : m = n := by
  have hlists : m.toList = n.toList := by
    refine eq_of_pairwise_of_mem_iff
      (fun _ _ hab hba => Std.lt_irrefl (Std.lt_trans hab hba)) m.ascending n.ascending ?_
    rintro ⟨k, v⟩
    rw [mem_toList_iff, mem_toList_iff, h]
  cases m
  cases n
  cases hlists
  rfl

/-- Binding a key to what it is bound to already changes nothing. -/
theorem insert_eq_self {m : OrderedMap κ ν} {k : κ} {v : ν} (h : m.get? k = some v) :
    m.insert k v = m := by
  refine ext_get? fun j => ?_
  rw [get?_insert]
  split
  · rename_i hjk
    rw [hjk, h]
  · rfl

omit [DecidableEq κ] in
/-- A key above all others goes to the end. -/
theorem insertList_of_forall_lt {k : κ} {l : List (κ × ν)} (h : ∀ b ∈ l, b.1 < k) (v : ν) :
    insertList k v l = l ++ [(k, v)] := by
  induction l with
  | nil => rfl
  | cons b bs ih =>
    obtain ⟨hb, hbs⟩ := List.forall_mem_cons.1 h
    have hnot : ¬ k < b.1 := fun hlt => Std.lt_irrefl (Std.lt_trans hlt hb)
    rw [insertList, if_neg hnot, if_pos hb, ih hbs, List.cons_append]

omit [DecidableEq κ] in
/-- A list in the order of its keys is a map as it stands. -/
theorem toList_ofList {l : List (κ × ν)} (h : l.Pairwise (·.1 < ·.1)) : (ofList l).toList = l := by
  have hfold : ∀ (todo : List (κ × ν)) (m : OrderedMap κ ν),
      (m.toList ++ todo).Pairwise (·.1 < ·.1) →
        (todo.foldl (fun m b => m.insert b.1 b.2) m).toList = m.toList ++ todo := by
    intro todo
    induction todo with
    | nil => simp
    | cons b bs ih =>
      intro m hascending
      have hbelow : ∀ c ∈ m.toList, c.1 < b.1 := fun c hc =>
        (List.pairwise_append.1 hascending).2.2 c hc b List.mem_cons_self
      have hinsert : (m.insert b.1 b.2).toList = m.toList ++ [b] :=
        insertList_of_forall_lt hbelow b.2
      rw [List.foldl_cons, ih _ (by simpa [hinsert] using hascending), hinsert, List.append_assoc,
        List.singleton_append]
  exact hfold l ∅ h

end OrderedMap

end AppBundle
