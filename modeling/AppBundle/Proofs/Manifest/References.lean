import AppBundle.Module.Remap
import AppBundle.Proofs.Ordered
import AppBundle.Proofs.Xml.References
import Mathlib.Data.List.Forall2

/-!
# References of a manifest that moves

What a tree becomes when packages move to a new number is said here without the
function that moves it.  An id whose top byte is one of the old packages gets the
low byte of the new number there (`MovedId`).  A tree keeps its shape and all that
is in it, in order, but for the ids that its values refer to (`Node.Moved`).

Moving references makes such a tree of any tree (`Node.moved_moveReferences`).  So
a manifest stays a manifest, and refers to the moved ids of what it referred to
(`Manifest.mem_references_moveReferences`).  A second move makes no difference,
whether the low byte of the new number is an old package or not
(`Node.moveReferences_moveReferences`).
-/

namespace AppBundle

open Resource

/-! ## Ids -/

namespace Resource

/-- A word and what it becomes when the packages numbered `old` move to `new`. -/
inductive MovedId (old : List UInt32) (new : UInt32) : UInt32 → UInt32 → Prop where
  /-- The top byte of a word in an old package becomes the low byte of the new number. -/
  | moves {word word' : UInt32} (mem : word / 0x1000000 ∈ old)
      (eq : word'.toNat = new.toNat % 0x100 * 0x1000000 + word.toNat % 0x1000000) :
      MovedId old new word word'
  /-- Any other word stays. -/
  | stays {word : UInt32} (not_mem : word / 0x1000000 ∉ old) : MovedId old new word word

variable {old : List UInt32} {new word : UInt32}

/-- The high bits of the new number are lost. -/
theorem toNat_moveId_of_mem (h : word / 0x1000000 ∈ old) : (moveId old new word).toNat =
    new.toNat % 0x100 * 0x1000000 + word.toNat % 0x1000000 := by
  rw [moveId, if_pos h, UInt32.toNat_ofNat']
  omega

theorem moveId_of_not_mem (h : word / 0x1000000 ∉ old) : moveId old new word = word := if_neg h

/-- A word moves to one word. -/
theorem movedId_iff {word' : UInt32} :
    MovedId old new word word' ↔ word' = moveId old new word := by
  constructor
  · intro h
    cases h with
    | moves mem eq => exact UInt32.toNat_inj.1 (eq.trans (toNat_moveId_of_mem mem).symm)
    | stays not_mem => exact (moveId_of_not_mem not_mem).symm
  · rintro rfl
    by_cases h : word / 0x1000000 ∈ old
    · exact .moves h (toNat_moveId_of_mem h)
    · rw [moveId_of_not_mem h]
      exact .stays h

/-- A word that has moved stays: if it moves again, it gets the top byte that it has. -/
theorem moveId_moveId (old : List UInt32) (new word : UInt32) :
    moveId old new (moveId old new word) = moveId old new word := by
  by_cases hmoves : word / 0x1000000 ∈ old
  · by_cases hagain : moveId old new word / 0x1000000 ∈ old
    · apply UInt32.toNat_inj.1
      rw [toNat_moveId_of_mem hagain, toNat_moveId_of_mem hmoves]
      omega
    · exact moveId_of_not_mem hagain
  · rw [moveId_of_not_mem hmoves, moveId_of_not_mem hmoves]

/-- A package of one byte is its own low byte, and a higher one is not. -/
example : moveId [0x7f] 0x102 0x7f010005 = 0x02010005 := by decide

end Resource

namespace Xml

variable {old : List UInt32} {new : UInt32}

/-! ## Values and attributes -/

/-- A compiled value and what it becomes. -/
inductive Item.Moved (old : List UInt32) (new : UInt32) : Item → Item → Prop where
  /-- A reference keeps its symbolic name. -/
  | reference {id id' : UInt32} {name : Option String} (moved : MovedId old new id id') :
      Moved old new (.reference id name) (.reference id' name)
  /-- Any other value stays. -/
  | other {item : Item} (not_reference : ∀ id name, item ≠ .reference id name) :
      Moved old new item item

/-- An attribute and what it becomes. -/
structure Attribute.Moved (old : List UInt32) (new : UInt32) (a a' : Attribute) : Prop where
  /-- The namespace stays. -/
  namespaceUri_eq : a'.namespaceUri = a.namespaceUri
  /-- The name stays. -/
  name_eq : a'.name = a.name
  /-- The resource that defines the attribute stays. -/
  resourceId_eq : a'.resourceId = a.resourceId
  /-- The raw text stays. -/
  raw_eq : a'.raw = a.raw
  /-- The compiled value moves, if there is one. -/
  item : Option.Rel (Item.Moved old new) a.item a'.item

theorem Item.moved_mapId (old : List UInt32) (new : UInt32) (item : Item) :
    Item.Moved old new item (item.mapId (moveId old new)) := by
  cases item with
  | reference id name => exact .reference (movedId_iff.2 rfl)
  | _ => exact .other nofun

theorem Attribute.moved_mapReference (old : List UInt32) (new : UInt32) (a : Attribute) :
    a.Moved old new (a.mapReference (moveId old new)) where
  namespaceUri_eq := rfl
  name_eq := rfl
  resourceId_eq := rfl
  raw_eq := rfl
  item := by
    rw [mapReference]
    cases a.item with
    | none => exact .none
    | some item => exact .some (item.moved_mapId old new)

/-! ## Trees -/

/-- A start tag and what it becomes. -/
structure Tag.Moved (old : List UInt32) (new : UInt32) (t t' : Tag) : Prop where
  /-- The namespace stays. -/
  namespaceUri_eq : t'.namespaceUri = t.namespaceUri
  /-- The name stays. -/
  name_eq : t'.name = t.name
  /-- The declarations stay. -/
  declarations_eq : t'.declarations = t.declarations
  /-- The attributes move one by one, in order. -/
  attributes : List.Forall₂ (Attribute.Moved old new) t.attributes t'.attributes

/-- A tree and what it becomes. -/
inductive Node.Moved (old : List UInt32) (new : UInt32) : Node → Node → Prop where
  /-- An element keeps its place, and its children move one by one, in order. -/
  | element {t t' : Tag} {ns ns' : List Node} (tag : t.Moved old new t')
      (children : List.Forall₂ (Moved old new) ns ns') :
      Moved old new (.element t ns) (.element t' ns')
  /-- A text run stays. -/
  | text (s : String) : Moved old new (.text s) (.text s)

namespace Node

theorem moved_map_mapReference (old : List UInt32) (new : UInt32) (as : List Attribute) :
    List.Forall₂ (Attribute.Moved old new) as (as.map (·.mapReference (moveId old new))) := by
  rw [List.forall₂_map_right_iff, List.forall₂_same]
  exact fun a _ => a.moved_mapReference old new

mutual

/-- Moving the references of a tree changes them as it should, and nothing else. -/
theorem moved_moveReferences (old : List UInt32) (new : UInt32) :
    ∀ n : Node, n.Moved old new (n.moveReferences old new)
  | .text s => .text s
  | .element tag children =>
    .element ⟨rfl, rfl, rfl, moved_map_mapReference old new tag.attributes⟩
      (moved_mapAttributesAll old new children)

theorem moved_mapAttributesAll (old : List UInt32) (new : UInt32) :
    ∀ ns : List Node, List.Forall₂ (Node.Moved old new) ns
      (mapAttributesAll (·.mapReference (moveId old new)) ns)
  | [] => .nil
  | n :: ns => .cons (moved_moveReferences old new n) (moved_mapAttributesAll old new ns)

end

/-- References that moved once stay when they are moved again. -/
theorem moveReferences_moveReferences (old : List UInt32) (new : UInt32) (n : Node) :
    (n.moveReferences old new).moveReferences old new = n.moveReferences old new := by
  have hids : moveId old new ∘ moveId old new = moveId old new := funext (moveId_moveId old new)
  rw [moveReferences, moveReferences, mapAttributes_mapAttributes]
  refine congrArg (n.mapAttributes ·) (funext fun a => ?_)
  rw [Function.comp_apply, Attribute.mapReference_mapReference, hids]

end Node

end Xml

/-! ## Manifests -/

namespace Manifest

open Xml

variable {old : List UInt32} {new : UInt32} {m : Manifest}

theorem referenceOf?_mapReference (f : UInt32 → UInt32) (a : Attribute) :
    referenceOf? (a.mapReference f) = (referenceOf? a).map f := by
  obtain ⟨uri, name, resourceId, raw, item⟩ := a
  cases item with
  | none => rfl
  | some item => cases item <;> rfl

theorem mem_references {word : UInt32} : word ∈ m.references ↔
    ∃ e ∈ m.root.elements, ∃ a ∈ e.attributes, referenceOf? a = some word := by
  rw [references, OrderedSet.mem_ofList, List.mem_filterMap]
  simp only [List.mem_flatMap]
  constructor
  · rintro ⟨a, ⟨e, he, ha⟩, hword⟩
    exact ⟨e, he, a, ha, hword⟩
  · rintro ⟨e, he, a, ha, hword⟩
    exact ⟨a, ⟨e, he, ha⟩, hword⟩

theorem ofNode?_moveReferences (old : List UInt32) (new : UInt32) (m : Manifest) :
    ofNode? (m.toNode.moveReferences old new) = .ok (m.moveReferences old new) :=
  dif_pos ⟨m.name_eq, m.namespace_eq⟩

theorem elements_moveReferences (old : List UInt32) (new : UInt32) (m : Manifest) :
    (m.moveReferences old new).root.elements =
      m.root.elements.map (·.mapAttributes (·.mapReference (moveId old new))) :=
  Node.elements_mapAttributes _ m.root.toNode

/-- A manifest refers to the moved ids of what it referred to before. -/
theorem mem_references_moveReferences {word' : UInt32} :
    word' ∈ (m.moveReferences old new).references ↔
      ∃ word ∈ m.references, MovedId old new word word' := by
  simp only [mem_references, elements_moveReferences, movedId_iff]
  constructor
  · rintro ⟨_, hmoved, _, hattribute, hword'⟩
    obtain ⟨e, he, rfl⟩ := List.mem_map.1 hmoved
    obtain ⟨a, ha, rfl⟩ := List.mem_map.1 hattribute
    rw [referenceOf?_mapReference, Option.map_eq_some_iff] at hword'
    obtain ⟨word, hword, rfl⟩ := hword'
    exact ⟨word, ⟨e, he, a, ha, hword⟩, rfl⟩
  · rintro ⟨word, ⟨e, he, a, ha, hword⟩, rfl⟩
    refine ⟨_, List.mem_map.2 ⟨e, he, rfl⟩, _, List.mem_map.2 ⟨a, ha, rfl⟩, ?_⟩
    rw [referenceOf?_mapReference, hword, Option.map_some]

/-- Moving the references of a tree keeps its shape and changes the ids of references
into the old packages alone, at any depth.  A manifest stays one and refers to the
moved ids of what it referred to, and moving the references again changes nothing. -/
theorem moveReferences_exact (old : List UInt32) (new : UInt32) :
    (∀ n : Node, n.Moved old new (n.moveReferences old new)) ∧
      (∀ m : Manifest, ∃ m', ofNode? (m.toNode.moveReferences old new) = .ok m' ∧
        ∀ word', word' ∈ m'.references ↔ ∃ word ∈ m.references, MovedId old new word word') ∧
      ∀ n : Node,
        (n.moveReferences old new).moveReferences old new = n.moveReferences old new :=
  ⟨Node.moved_moveReferences old new,
    fun m => ⟨_, ofNode?_moveReferences old new m, fun _ => mem_references_moveReferences⟩,
    Node.moveReferences_moveReferences old new⟩

end Manifest

end AppBundle
