import AppBundle.Proofs.Ordered
import AppBundle.Xml.Binary.Decode
import AppBundle.Xml.Binary.Encode

/-!
# Looking up what was listed

`StringTable.pool` and `StringTable.resourceIds` are what a document tells its
reader about the strings of a tree: the string at each index, and the resource
id of each attribute name that has one.  An index that the table gave for a
string leads back to that string as long as the table is `Small`, so that no
index is the one that stands for no string (`get?_of_index?`).  The index of an
attribute name leads back to the name and to its resource id
(`resourceId?_of_nameIndex?`).
-/

namespace AppBundle.Xml.Binary

namespace StringTable

/-- The strings as they are read back. -/
def pool (t : StringTable) : StringPool := ⟨t.strings.toArray⟩

/-- The resource ids as they are read back. -/
def resourceIds (t : StringTable) : Array Word := (t.identified.map (·.id)).toArray

/-- Every index is a word, and none is the one for no string. -/
def Small (t : StringTable) : Prop := t.strings.length ≤ noIndexNat

variable {t : StringTable} {text : String} {i : Nat}

/-! ## From the index to the string -/

/-- A place in a small table is a word, and not the one for no string. -/
theorem toNat_place (ht : t.Small) (h : t.strings[i]? = some text) :
    (UInt32.ofNat i).toNat = i ∧ UInt32.ofNat i ≠ noIndex := by
  obtain ⟨hi, -⟩ := List.getElem?_eq_some_iff.1 h
  have hlt : i < 0xffffffff := Nat.lt_of_lt_of_le hi ht
  have hword : (UInt32.ofNat i).toNat = i :=
    UInt32.toNat_ofNat_of_lt' (by simp only [UInt32.size]; omega)
  refine ⟨hword, fun heq => ?_⟩
  have hnat := congrArg UInt32.toNat heq
  rw [hword] at hnat
  simp only [noIndex, UInt32.reduceToNat] at hnat
  omega

/-- A place in a small table, taken as a word, leads to the string there. -/
theorem get?_of_getElem? (ht : t.Small) (h : t.strings[i]? = some text) :
    t.pool.get? (UInt32.ofNat i) = some text := by
  obtain ⟨hword, hne⟩ := toNat_place ht h
  simp [StringPool.get?, hne, hword, pool, h]

/-- The index of a string is its place in the table. -/
theorem getElem?_of_index? (h : t.index? text = .ok i) : t.strings[i]? = some text := by
  simp only [index?] at h
  split at h
  · rename_i j hj
    cases h
    obtain ⟨hj, htext, -⟩ := List.idxOf?_eq_some_iff.1 hj
    simp [strings, List.getElem?_append_right, List.getElem?_eq_getElem hj, htext]
  · cases h

/-- The index of a string leads back to it. -/
theorem get?_of_index? (ht : t.Small) (h : t.index? text = .ok i) :
    t.pool.get? (UInt32.ofNat i) = some text :=
  get?_of_getElem? ht (getElem?_of_index? h)

/-- The index of an optional string leads back to it, and to nothing for the empty string. -/
theorem get?_of_indexOrNone? (ht : t.Small) (h : t.indexOrNone? text = .ok i) :
    t.pool.get? (UInt32.ofNat i) = if text = "" then none else some text := by
  simp only [indexOrNone?] at h
  split at h
  · rename_i htext
    cases h
    simp [StringPool.get?, htext, noIndex]
  · rename_i htext
    rw [get?_of_index? ht h, if_neg htext]

/-- The index of an optional string leads back to it, the empty string being the default. -/
theorem getD_of_indexOrNone? (ht : t.Small) (h : t.indexOrNone? text = .ok i) :
    (t.pool.get? (UInt32.ofNat i)).getD "" = text := by
  rw [get?_of_indexOrNone? ht h]
  split
  · simp [*]
  · rfl

/-! ## From the index to the resource id -/

variable {a : Attribute}

/-- The index of an attribute name is a place of the name in the table. -/
theorem getElem?_of_nameIndex? (h : t.nameIndex? a = .ok i) : t.strings[i]? = some a.name := by
  simp only [nameIndex?] at h
  split at h
  · exact getElem?_of_index? h
  · split at h
    · rename_i id _ j hj
      cases h
      obtain ⟨hj, hname, -⟩ := List.idxOf?_eq_some_iff.1 hj
      simp [strings, List.getElem?_append_left, hj, hname]
    · cases h

/-- The index of an attribute name leads back to the name. -/
theorem get?_of_nameIndex? (ht : t.Small) (h : t.nameIndex? a = .ok i) :
    t.pool.get? (UInt32.ofNat i) = some a.name :=
  get?_of_getElem? ht (getElem?_of_nameIndex? h)

/-- The index of an attribute name leads back to the resource id, which must not be zero. -/
theorem resourceId?_of_nameIndex? (ht : t.Small) (ha : a.resourceId ≠ some 0)
    (h : t.nameIndex? a = .ok i) :
    resourceId? t.resourceIds (UInt32.ofNat i) = a.resourceId := by
  rw [resourceId?, (toNat_place ht (getElem?_of_nameIndex? h)).1]
  simp only [nameIndex?] at h
  split at h
  · rename_i hnone
    -- A name without an id stands after all names with one.
    simp only [index?] at h
    split at h
    · cases h
      simp [resourceIds, hnone]
    · cases h
  · rename_i id hsome
    split at h
    · rename_i j hj
      cases h
      obtain ⟨hj, hname, -⟩ := List.idxOf?_eq_some_iff.1 hj
      rw [hsome] at ha ⊢
      simpa [resourceIds, hj, hname] using ha
    · cases h

end StringTable

end AppBundle.Xml.Binary
