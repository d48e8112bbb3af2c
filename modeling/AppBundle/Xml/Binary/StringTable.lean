import AppBundle.Ordered.ByKey
import AppBundle.Ordered.Set
import AppBundle.Xml.Tree

/-!
# The strings of a tree

Before a tree can be written in binary form its strings get indices.  The names
of attributes that have a resource id come first, ordered by id and then by
name, so that the resource map can list the ids in the same order.  All other
strings follow in the order of their first use.

An attribute name with an id and the same text elsewhere are two strings.
-/

namespace AppBundle.Xml.Binary

/-- The name of an attribute together with the resource id that defines it. -/
structure IdentifiedName where
  /-- The resource id. -/
  id : UInt32
  /-- The name. -/
  name : String
deriving DecidableEq

namespace IdentifiedName

instance : LT IdentifiedName := ⟨fun a b => a.id < b.id ∨ a.id = b.id ∧ a.name < b.name⟩

instance : LE IdentifiedName := ⟨fun a b => ¬ b < a⟩

instance : DecidableLT IdentifiedName := fun a b =>
  inferInstanceAs (Decidable (a.id < b.id ∨ a.id = b.id ∧ a.name < b.name))

theorem lt_iff {a b : IdentifiedName} :
    a < b ↔ a.id < b.id ∨ a.id = b.id ∧ a.name < b.name := Iff.rfl

theorem ordered_self : ByKey.Ordered (fun a : IdentifiedName => a) where
  key_inj _ _ h := h
  lt_iff _ _ := Iff.rfl
  le_iff _ _ := Iff.rfl

theorem lt_asymm (a b : IdentifiedName) (h : a < b) : ¬ b < a := by
  rw [lt_iff] at h ⊢
  rintro (hid | ⟨hid, hname⟩)
  · rcases h with h | ⟨h, -⟩
    · exact Std.not_lt.2 (Std.le_of_lt h) hid
    · exact Std.lt_irrefl (h ▸ hid)
  · rcases h with h | ⟨-, h⟩
    · exact Std.lt_irrefl (hid ▸ h)
    · exact Std.not_lt.2 (Std.le_of_lt h) hname

theorem eq_of_not_lt (a b : IdentifiedName) (hab : ¬ a < b) (hba : ¬ b < a) : a = b := by
  simp only [lt_iff, not_or, not_and] at hab hba
  have hid : a.id = b.id := Std.le_antisymm (Std.not_lt.1 hba.1) (Std.not_lt.1 hab.1)
  have hname : a.name = b.name :=
    Std.le_antisymm (Std.not_lt.1 (hba.2 hid.symm)) (Std.not_lt.1 (hab.2 hid))
  cases a
  cases b
  simp_all

theorem not_lt_trans (a b c : IdentifiedName) (hab : ¬ a < b) (hbc : ¬ b < c) : ¬ a < c := by
  simp only [lt_iff, not_or, not_and] at hab hbc ⊢
  have hba : b.id ≤ a.id := Std.not_lt.1 hab.1
  have hcb : c.id ≤ b.id := Std.not_lt.1 hbc.1
  refine ⟨Std.not_lt.2 (Std.le_trans hcb hba), fun hac => ?_⟩
  have hid : a.id = b.id := Std.le_antisymm (hac ▸ hcb) hba
  have hname : b.name ≤ a.name := Std.not_lt.1 (hab.2 hid)
  have hname' : c.name ≤ b.name := Std.not_lt.1 (hbc.2 (hid ▸ hac))
  exact Std.not_lt.2 (Std.le_trans hname' hname)

instance : Std.IsLinearOrder IdentifiedName :=
  ByKey.isLinearOrder ordered_self lt_asymm not_lt_trans eq_of_not_lt

instance : Std.LawfulOrderLT IdentifiedName := ByKey.lawfulOrderLT ordered_self lt_asymm

end IdentifiedName

/-! ## Collecting -/

/-- The text, unless it is empty. -/
def nonEmpty (text : String) : List String := if text = "" then [] else [text]

/-- The strings that the value of an attribute refers to. -/
def valueStrings (a : Attribute) : List String :=
  match a.item with
  | none => [a.raw]
  | some (.string text) => text :: nonEmpty a.raw
  | some _ => []

/-- The strings that an attribute refers to, its name aside if that has an id. -/
def attributeStrings (a : Attribute) : List String :=
  nonEmpty a.namespaceUri ++ (if a.resourceId.isNone then [a.name] else []) ++ valueStrings a

/-- The strings that a start tag refers to. -/
def tagStrings (t : Tag) : List String :=
  t.declarations.flatMap (fun d => [d.pfx, d.uri]) ++ nonEmpty t.namespaceUri ++ [t.name] ++
    t.attributes.flatMap attributeStrings

mutual

/-- The strings that a tree refers to, in the order of their use. -/
def nodeStrings : Node → List String
  | .element tag children => tagStrings tag ++ nodesStrings children
  | .text text => [text]

/-- The strings that a list of trees refers to. -/
def nodesStrings : List Node → List String
  | [] => []
  | n :: ns => nodeStrings n ++ nodesStrings ns

end

/-- The attribute names of a tree that have a resource id. -/
def identifiedNames (n : Node) : List IdentifiedName :=
  n.elements.flatMap fun e =>
    e.attributes.filterMap fun a => a.resourceId.map fun id => ⟨id, a.name⟩

/-! ## Indices -/

/-- The strings of a tree, each at its index. -/
structure StringTable where
  /-- The attribute names with an id, at the indices from zero on. -/
  identified : List IdentifiedName
  /-- The other strings, at the indices that follow. -/
  others : List String

namespace StringTable

/-- The strings of a tree. -/
def ofNode (n : Node) : StringTable where
  identified := (OrderedSet.ofList (identifiedNames n)).toList
  others := (nodeStrings n).eraseDups

/-- All strings, by index. -/
def strings (t : StringTable) : List String := t.identified.map (·.name) ++ t.others

/-- The index of a string. -/
def index? (t : StringTable) (text : String) : Except CodecError Nat :=
  match t.others.idxOf? text with
  | some i => .ok (t.identified.length + i)
  | none => .error (.unlistedString text)

/-- The index of a string, or the one that stands for none if it is empty. -/
def indexOrNone? (t : StringTable) (text : String) : Except CodecError Nat :=
  if text = "" then .ok 0xffffffff else t.index? text

/-- The index of the name of an attribute. -/
def nameIndex? (t : StringTable) (a : Attribute) : Except CodecError Nat :=
  match a.resourceId with
  | none => t.index? a.name
  | some id =>
    match t.identified.idxOf? ⟨id, a.name⟩ with
    | some i => .ok i
    | none => .error (.unlistedAttribute a.name)

end StringTable

end AppBundle.Xml.Binary
