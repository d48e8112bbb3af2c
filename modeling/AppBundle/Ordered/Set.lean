/-!
# Ordered sets

A finite set is kept as the ascending list of its members.  The order is part
of the type, so two sets with the same members are equal, and whoever lists a
set lists it in ascending order.

The element type needs a decidable linear order.  `OrderedSet.insert` keeps the
list ascending; everything else is built from it.
-/

namespace AppBundle

/-- A finite set, held as its members in ascending order. -/
structure OrderedSet (α : Type) [LT α] where
  /-- The members, each before the greater ones. -/
  toList : List α
  /-- The list is strictly ascending. -/
  ascending : toList.Pairwise (· < ·)
deriving DecidableEq

namespace OrderedSet

variable {α : Type} [LT α]

instance : EmptyCollection (OrderedSet α) := ⟨⟨[], .nil⟩⟩

instance : Inhabited (OrderedSet α) := ⟨∅⟩

instance : Membership α (OrderedSet α) := ⟨fun s a => a ∈ s.toList⟩

instance [DecidableEq α] (a : α) (s : OrderedSet α) : Decidable (a ∈ s) :=
  inferInstanceAs (Decidable (a ∈ s.toList))

/-- Whether there are no members. -/
def isEmpty (s : OrderedSet α) : Bool := s.toList.isEmpty

@[simp] theorem mem_toList {a : α} {s : OrderedSet α} : a ∈ s.toList ↔ a ∈ s := Iff.rfl

/-! ## Insertion -/

section Insert

variable [DecidableLT α]

/-- The place of `a` in an ascending list. -/
def insertList (a : α) : List α → List α
  | [] => [a]
  | b :: bs => if a < b then a :: b :: bs else if b < a then b :: insertList a bs else b :: bs

theorem mem_of_mem_insertList {a x : α} {l : List α} (h : x ∈ insertList a l) : x = a ∨ x ∈ l := by
  induction l with
  | nil => simpa [insertList] using h
  | cons b bs ih =>
    simp only [insertList] at h
    split at h
    · simpa using h
    · split at h
      · rcases List.mem_cons.1 h with rfl | h
        · simp
        · rcases ih h with rfl | h <;> simp [*]
      · exact .inr h

variable [LE α] [Std.IsLinearOrder α] [Std.LawfulOrderLT α]

theorem ascending_insertList {a : α} {l : List α} (h : l.Pairwise (· < ·)) :
    (insertList a l).Pairwise (· < ·) := by
  induction l with
  | nil => simp [insertList]
  | cons b bs ih =>
    have ⟨hb, hbs⟩ := List.pairwise_cons.1 h
    simp only [insertList]
    split
    · rename_i hab
      refine List.pairwise_cons.2 ⟨fun x hx => ?_, h⟩
      rcases List.mem_cons.1 hx with rfl | hx
      · exact hab
      · exact Std.lt_trans hab (hb x hx)
    · split
      · rename_i hba
        refine List.pairwise_cons.2 ⟨fun x hx => ?_, ih hbs⟩
        rcases mem_of_mem_insertList hx with rfl | hx
        · exact hba
        · exact hb x hx
      · exact h

/-- The set with one more member. -/
def insert (a : α) (s : OrderedSet α) : OrderedSet α :=
  ⟨insertList a s.toList, ascending_insertList s.ascending⟩

/-- The set of the members of a list. -/
def ofList (l : List α) : OrderedSet α := l.foldl (fun s a => s.insert a) ∅

/-- The set with one member. -/
def singleton (a : α) : OrderedSet α := insert a ∅

end Insert

end OrderedSet

end AppBundle
