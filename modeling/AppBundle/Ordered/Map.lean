/-!
# Ordered maps

A finite map is kept as the list of its bindings, ascending by key.  Looking a
key up, binding it and dropping it each walk the list to the place where the
key stands or would stand.
-/

namespace AppBundle

/-- A finite map, held as its bindings in ascending order of the keys. -/
structure OrderedMap (κ ν : Type) [LT κ] where
  /-- The bindings, each before those with a greater key. -/
  toList : List (κ × ν)
  /-- The keys are strictly ascending. -/
  ascending : toList.Pairwise (·.1 < ·.1)

namespace OrderedMap

variable {κ ν : Type} [LT κ]

instance : EmptyCollection (OrderedMap κ ν) := ⟨⟨[], .nil⟩⟩

instance : Inhabited (OrderedMap κ ν) := ⟨∅⟩

/-- The bound keys, ascending. -/
def keys (m : OrderedMap κ ν) : List κ := m.toList.map (·.1)

/-- The values, in ascending order of their keys. -/
def values (m : OrderedMap κ ν) : List ν := m.toList.map (·.2)

/-- The value bound to a key. -/
def get? [DecidableEq κ] (m : OrderedMap κ ν) (k : κ) : Option ν := m.toList.lookup k

/-- The map without a key. -/
def erase [DecidableEq κ] (k : κ) (m : OrderedMap κ ν) : OrderedMap κ ν :=
  ⟨m.toList.filter (·.1 ≠ k), m.ascending.filter _⟩

section Insert

variable [DecidableLT κ]

/-- The bindings with `k` bound to `v`, in place of what it was bound to. -/
def insertList (k : κ) (v : ν) : List (κ × ν) → List (κ × ν)
  | [] => [(k, v)]
  | b :: bs =>
    if k < b.1 then (k, v) :: b :: bs
    else if b.1 < k then b :: insertList k v bs
    else (k, v) :: bs

theorem mem_of_mem_insertList {k : κ} {v : ν} {b : κ × ν} {l : List (κ × ν)}
    (h : b ∈ insertList k v l) : b = (k, v) ∨ b ∈ l := by
  induction l with
  | nil => simpa [insertList] using h
  | cons c cs ih =>
    simp only [insertList] at h
    split at h
    · simpa using h
    · split at h
      · rcases List.mem_cons.1 h with rfl | h
        · simp
        · rcases ih h with rfl | h <;> simp [*]
      · rcases List.mem_cons.1 h with rfl | h <;> simp [*]

variable [LE κ] [Std.IsLinearOrder κ] [Std.LawfulOrderLT κ]

theorem ascending_insertList {k : κ} {v : ν} {l : List (κ × ν)} (h : l.Pairwise (·.1 < ·.1)) :
    (insertList k v l).Pairwise (·.1 < ·.1) := by
  induction l with
  | nil => simp [insertList]
  | cons b bs ih =>
    have ⟨hb, hbs⟩ := List.pairwise_cons.1 h
    simp only [insertList]
    split
    · rename_i hkb
      refine List.pairwise_cons.2 ⟨fun x hx => ?_, h⟩
      rcases List.mem_cons.1 hx with rfl | hx
      · exact hkb
      · exact Std.lt_trans hkb (hb x hx)
    · split
      · rename_i hbk
        refine List.pairwise_cons.2 ⟨fun x hx => ?_, ih hbs⟩
        rcases mem_of_mem_insertList hx with rfl | hx
        · exact hbk
        · exact hb x hx
      · rename_i hkb hbk
        -- Neither key is below the other, so they are the same key.
        have hkey : k = b.1 := Std.le_antisymm (Std.not_lt.1 hbk) (Std.not_lt.1 hkb)
        exact List.pairwise_cons.2 ⟨fun x hx => hkey ▸ hb x hx, hbs⟩

/-- The map with `k` bound to `v`. -/
def insert (k : κ) (v : ν) (m : OrderedMap κ ν) : OrderedMap κ ν :=
  ⟨insertList k v m.toList, ascending_insertList m.ascending⟩

/-- The map that binds each key of a list to its last value there. -/
def ofList (l : List (κ × ν)) : OrderedMap κ ν := l.foldl (fun m (k, v) => m.insert k v) ∅

end Insert

end OrderedMap

end AppBundle
