import AppBundle.Proofs.Xml.Tags
import AppBundle.Resource.Remap

/-!
# Canonical trees

A binary document cannot say everything that a tree can.  It has no place for a
second attribute of the same name or for a declaration that is made twice, it
writes a resource id of zero for none, and it has one way to write a value that
is not text.  A canonical tree keeps to what a document can say
(`Node.Canonical`): nothing in it stands twice, no resource id is zero, and raw
text and compiled value of each attribute fit together (`Item.FitsRaw`).

The edits that a reader makes keep to this: a declaration is made once
(`Element.canonical_declare`), and an attribute takes the place of one of the
same name (`Element.canonical_insert`).  Moving references to another package
changes ids inside compiled values and nothing else, so it keeps a tree
canonical as well (`Node.Canonical.moveReferences`).
-/

namespace AppBundle.Xml

/-! ## Values -/

/-- The type bytes that stand for no value or for a compiled value with a case of its own. -/
def Item.ownTypes : List UInt8 := [0x00, 0x01, 0x03, 0x10, 0x11, 0x12]

/-- Whether a compiled value can stand beside this raw text.  Compiled text
stands beside any other raw text, or alone.  All other values stand alone, a
resource without its symbolic name, and a value of another kind with a type
byte that no other case has. -/
def Item.FitsRaw (raw : String) : Item → Prop
  | .string text => raw = "" ∨ text ≠ raw
  | .boolean _ => raw = ""
  | .decimal _ => raw = ""
  | .hex _ => raw = ""
  | .reference _ name => raw = "" ∧ name = none
  | .primitive dataType _ => raw = "" ∧ dataType ∉ ownTypes

instance (raw : String) : (item : Item) → Decidable (item.FitsRaw raw)
  | .string text => inferInstanceAs (Decidable (raw = "" ∨ text ≠ raw))
  | .boolean _ => inferInstanceAs (Decidable (raw = ""))
  | .decimal _ => inferInstanceAs (Decidable (raw = ""))
  | .hex _ => inferInstanceAs (Decidable (raw = ""))
  | .reference _ name => inferInstanceAs (Decidable (raw = "" ∧ name = none))
  | .primitive dataType _ => inferInstanceAs (Decidable (raw = "" ∧ dataType ∉ Item.ownTypes))

/-- Another id for a resource makes no difference to the raw text. -/
theorem Item.FitsRaw.mapId {raw : String} {item : Item} (h : item.FitsRaw raw)
    (f : UInt32 → UInt32) : (item.mapId f).FitsRaw raw := by
  cases item with
  | string text => exact h
  | boolean value => exact h
  | decimal value => exact h
  | hex value => exact h
  | reference id name => exact h
  | primitive dataType data => exact h

/-! ## Attributes and start tags -/

/-- An attribute as a binary document can hold it. -/
structure Attribute.Canonical (a : Attribute) : Prop where
  /-- The resource id is not the one that stands for none. -/
  resourceId_ne : a.resourceId ≠ some 0
  /-- The compiled value fits the raw text. -/
  fitsRaw : ∀ item, a.item = some item → item.FitsRaw a.raw

instance (a : Attribute) : Decidable a.Canonical :=
  decidable_of_iff (a.resourceId ≠ some 0 ∧ ∀ item ∈ a.item, item.FitsRaw a.raw)
    ⟨fun h => ⟨h.1, h.2⟩, fun h => ⟨h.resourceId_ne, h.fitsRaw⟩⟩

/-- Text alone is canonical. -/
theorem Attribute.canonical_setText {a : Attribute} (h : a.resourceId ≠ some 0) (text : String) :
    (a.setText text).Canonical :=
  ⟨h, fun _ hitem => nomatch hitem⟩

theorem Attribute.canonical_setItem {a : Attribute} (h : a.resourceId ≠ some 0) {item : Item}
    (hfits : item.FitsRaw "") : (a.setItem item).Canonical := by
  refine ⟨h, ?_⟩
  intro item' hitem
  cases hitem
  exact hfits

theorem Attribute.canonical_setCompiledText {a : Attribute} (h : a.resourceId ≠ some 0)
    {text : String} (hfits : a.raw = "" ∨ text ≠ a.raw) :
    (a.setCompiledText text).Canonical := by
  refine ⟨h, ?_⟩
  intro item hitem
  cases hitem
  exact hfits

theorem Attribute.Canonical.mapReference {a : Attribute} (h : a.Canonical)
    (f : UInt32 → UInt32) : (a.mapReference f).Canonical := by
  refine ⟨h.resourceId_ne, ?_⟩
  intro moved hmoved
  obtain ⟨item, hitem, rfl⟩ := Option.map_eq_some_iff.1 hmoved
  exact (h.fitsRaw item hitem).mapId f

/-- The namespace and the name of an attribute. -/
def Attribute.fullName (a : Attribute) : String × String := (a.namespaceUri, a.name)

theorem Attribute.isNamed_iff {a : Attribute} {uri name : String} :
    a.isNamed uri name ↔ a.fullName = (uri, name) := by
  rw [isNamed, fullName, Bool.and_eq_true, beq_iff_eq, beq_iff_eq, Prod.mk.injEq]

/-- A start tag as a binary document can hold it. -/
structure Tag.Canonical (t : Tag) : Prop where
  /-- No declaration is made twice. -/
  declarations_nodup : t.declarations.Nodup
  /-- No two attributes have the same name in the same namespace. -/
  names_nodup : (t.attributes.map (·.fullName)).Nodup
  /-- The attributes are canonical. -/
  attributes : ∀ a ∈ t.attributes, a.Canonical

instance (t : Tag) : Decidable t.Canonical :=
  decidable_of_iff
    (t.declarations.Nodup ∧ (t.attributes.map (·.fullName)).Nodup ∧
      ∀ a ∈ t.attributes, a.Canonical)
    ⟨fun h => ⟨h.1, h.2.1, h.2.2⟩, fun h => ⟨h.declarations_nodup, h.names_nodup, h.attributes⟩⟩

/-- A declaration that is there already is not made again, and nothing else changes. -/
theorem Element.declare_eq (e : Element) (d : Declaration) :
    e.declare d = { e with
      declarations := if d ∈ e.declarations then e.declarations else e.declarations ++ [d] } := by
  rw [Element.declare]
  split
  · rfl
  · rfl

theorem Element.nodup_declare {e : Element} (h : e.declarations.Nodup) (d : Declaration) :
    (e.declare d).declarations.Nodup := by
  rw [Element.declare]
  split
  · exact h
  · rename_i hnew
    show (e.declarations ++ [d]).Nodup
    rw [(List.perm_append_singleton _ _).nodup_iff]
    exact List.nodup_cons.2 ⟨hnew, h⟩

theorem Element.canonical_declare {e : Element} (h : e.toTag.Canonical) (d : Declaration) :
    (e.declare d).toTag.Canonical := by
  have hdeclarations := nodup_declare h.declarations_nodup d
  rw [declare_eq] at hdeclarations ⊢
  exact ⟨hdeclarations, h.names_nodup, h.attributes⟩

/-- No attribute has a name that a search misses. -/
theorem Tag.not_mem_names_of_find?_none {t : Tag} {uri name : String}
    (h : t.attributes.find? (·.isNamed uri name) = none) :
    (uri, name) ∉ t.attributes.map (·.fullName) := by
  intro hmem
  obtain ⟨a, ha, heq⟩ := List.mem_map.1 hmem
  exact List.find?_eq_none.1 h a ha (Attribute.isNamed_iff.2 heq)

/-- A change of the first attribute of a name, or a new one, keeps the start tag
canonical when it does not rename an attribute. -/
theorem Tag.Canonical.modifyOrPush {t : Tag} (h : t.Canonical) {uri name : String}
    {f : Attribute → Attribute} {new : Attribute} (hnew : new.Canonical)
    (hname : new.fullName = (uri, name)) (hf : ∀ a, a.Canonical → (f a).Canonical)
    (hkeeps : ∀ a, a.isNamed uri name → (f a).fullName = a.fullName) :
    Tag.Canonical { t with
      attributes := FirstMatch.modifyOrPush (·.isNamed uri name) f new t.attributes } where
  declarations_nodup := h.declarations_nodup
  names_nodup := FirstMatch.nodup_map_modifyOrPush h.names_nodup hkeeps fun hnone =>
    hname ▸ Tag.not_mem_names_of_find?_none hnone
  attributes := FirstMatch.forall_mem_modifyOrPush hf hnew h.attributes

/-- An attribute takes the place of one of the same name. -/
theorem Element.canonical_insert {e : Element} (h : e.toTag.Canonical) {a : Attribute}
    (ha : a.Canonical) : (e.insert a).toTag.Canonical :=
  h.modifyOrPush ha rfl (fun _ _ => ha) fun _ hb => (Attribute.isNamed_iff.1 hb).symm

/-- Declarations that are all different are collected as they are. -/
theorem Element.foldl_declare {e : Element} {ds : List Declaration}
    (h : (e.declarations ++ ds).Nodup) :
    ds.foldl declare e = { e with declarations := e.declarations ++ ds } := by
  induction ds generalizing e with
  | nil => simp
  | cons d ds ih =>
    have hd : d ∉ e.declarations := by
      intro hmem
      exact (List.nodup_append.1 h).2.2 d hmem d List.mem_cons_self rfl
    have hdeclare : e.declare d = { e with declarations := e.declarations ++ [d] } := if_neg hd
    rw [List.foldl_cons, hdeclare, ih (by simpa using h)]
    simp

/-- An attribute of a new name goes to the end. -/
theorem Element.insert_of_new {e : Element} {a : Attribute}
    (h : a.fullName ∉ e.attributes.map (·.fullName)) :
    e.insert a = { e with attributes := e.attributes ++ [a] } := by
  have hnone : e.attributes.find? (·.isNamed a.namespaceUri a.name) = none := by
    rw [List.find?_eq_none]
    intro b hb hnamed
    exact h (List.mem_map.2 ⟨b, hb, Attribute.isNamed_iff.1 hnamed⟩)
  rw [Element.insert, FirstMatch.modifyOrPush_of_find?_none hnone]

/-- Attributes of different names are collected as they are. -/
theorem Element.foldl_insert {e : Element} {as : List Attribute}
    (h : ((e.attributes ++ as).map (·.fullName)).Nodup) :
    as.foldl insert e = { e with attributes := e.attributes ++ as } := by
  induction as generalizing e with
  | nil => simp
  | cons a as ih =>
    have hnew : a.fullName ∉ e.attributes.map (·.fullName) := by
      intro hmem
      rw [List.map_append, List.map_cons] at h
      exact (List.nodup_append.1 h).2.2 _ hmem _ List.mem_cons_self rfl
    rw [List.foldl_cons, insert_of_new hnew, ih (by simpa using h)]
    simp

theorem Tag.Canonical.mapReference {t : Tag} (h : t.Canonical) (f : UInt32 → UInt32) :
    Tag.Canonical { t with attributes := t.attributes.map (·.mapReference f) } := by
  refine ⟨h.declarations_nodup, ?_, ?_⟩
  · rw [List.map_map]
    exact h.names_nodup
  · intro moved hmoved
    obtain ⟨a, ha, rfl⟩ := List.mem_map.1 hmoved
    exact (h.attributes a ha).mapReference f

/-! ## Trees -/

/-- A tree as a binary document can hold it. -/
structure Node.Canonical (n : Node) : Prop where
  /-- The root is an element. -/
  isElement : n.element?.isSome
  /-- The start tags at any depth are canonical. -/
  tags : ∀ e ∈ n.elements, e.toTag.Canonical

instance (n : Node) : Decidable n.Canonical :=
  decidable_of_iff (n.element?.isSome ∧ ∀ e ∈ n.elements, e.toTag.Canonical)
    ⟨fun h => ⟨h.1, h.2⟩, fun h => ⟨h.isElement, h.tags⟩⟩

namespace Node

theorem canonical_iff {n : Node} : n.Canonical ↔ n.element?.isSome ∧ n.AllTags Tag.Canonical :=
  ⟨fun h => ⟨h.isElement, h.tags⟩, fun h => ⟨h.1, h.2⟩⟩

/-- An element is canonical when all start tags are, its own and those below it. -/
theorem canonical_toNode {e : Element} : e.toNode.Canonical ↔ e.toNode.AllTags Tag.Canonical :=
  canonical_iff.trans (and_iff_right rfl)

/-- One more child keeps an element canonical when the start tags of the child are. -/
theorem canonical_push {e : Element} (h : e.toNode.Canonical) {n : Node}
    (hn : n.AllTags Tag.Canonical) : (e.push n).toNode.Canonical :=
  canonical_toNode.2 (AllTags.push (canonical_toNode.1 h) hn)

/-- An element that has just been started: its start tag is canonical, and it has
no children yet. -/
structure Started (e : Element) : Prop where
  /-- The start tag is canonical. -/
  tag : e.toTag.Canonical
  /-- There are no children. -/
  children_eq : e.children = []

namespace Started

variable {e : Element}

theorem bare (uri name : String) : Started { namespaceUri := uri, name } :=
  ⟨⟨List.nodup_nil, List.nodup_nil, fun _ ha => nomatch ha⟩, rfl⟩

theorem declare (h : Started e) (d : Declaration) : Started (e.declare d) := by
  refine ⟨Element.canonical_declare h.tag d, ?_⟩
  rw [Element.declare_eq]
  exact h.children_eq

theorem insert (h : Started e) {a : Attribute} (ha : a.Canonical) : Started (e.insert a) :=
  ⟨Element.canonical_insert h.tag ha, h.children_eq⟩

theorem canonical (h : Started e) : e.toNode.Canonical :=
  canonical_toNode.2 (.of_childless h.tag h.children_eq)

end Started

/-- A canonical tree stays canonical when its references move. -/
theorem Canonical.moveReferences {n : Node} (h : n.Canonical) (old : List UInt32) (new : UInt32) :
    (n.moveReferences old new).Canonical := by
  refine ⟨?_, AllTags.mapAttributes h.tags fun _ ht => ht.mapReference _⟩
  cases n with
  | element tag children => rfl
  | text s => cases h.isElement

end Node

end AppBundle.Xml
