import AppBundle.Proofs.Resource.Moved

/-!
# References of a tree

A tree speaks of resources in two places: an attribute may refer to one with its
value, and one may define the attribute.  Moving the references of a tree changes
every attribute at any depth (`Node.elements_mapAttributes`), and of each one the
value only.  So no reference into the old packages is left, while the resources
that define the attributes are the same as before (`Node.referencesLeave`).

References that are in the new package already stay (`Node.moveReferences_self`).
Moving back from there takes along whatever is in the new package, so it restores
a tree that did not refer to that package (`Node.moveReferences_back`).
-/

namespace AppBundle.Xml

open Resource

/-! ## Attributes -/

namespace Attribute

/-- The value refers to a resource of one of these packages. -/
def RefersInto (a : Attribute) (packages : List UInt32) : Prop :=
  ∃ id name, a.item = some (.reference id name) ∧ id / 0x1000000 ∈ packages

instance (a : Attribute) (packages : List UInt32) : Decidable (a.RefersInto packages) :=
  decidable_of_iff (a.item.any fun
    | .reference id _ => decide (id / 0x1000000 ∈ packages)
    | _ => false) (by
      obtain ⟨uri, name, resourceId, raw, item⟩ := a
      cases item with
      | none => simp [RefersInto]
      | some item => cases item <;> simp [RefersInto])

/-- A resource of one of these packages defines the attribute. -/
def DefinedIn (a : Attribute) (packages : List UInt32) : Prop :=
  ∃ id, a.resourceId = some id ∧ id / 0x1000000 ∈ packages

/-- A changed reference is the change of a reference. -/
theorem item_of_mapReference {f : UInt32 → UInt32} {a : Attribute} {id : UInt32}
    {name : Option String} (h : (a.mapReference f).item = some (.reference id name)) :
    ∃ id', a.item = some (.reference id' name) ∧ id = f id' := by
  obtain ⟨item, hitem, hmap⟩ := Option.map_eq_some_iff.1 h
  cases item with
  | reference id' name' =>
    cases hmap
    exact ⟨id', hitem, rfl⟩
  | _ => cases hmap

/-- A change that fixes the id of a reference fixes the attribute. -/
theorem mapReference_eq_self {f : UInt32 → UInt32} {a : Attribute}
    (h : ∀ id name, a.item = some (.reference id name) → f id = id) : a.mapReference f = a := by
  obtain ⟨uri, name, resourceId, raw, item⟩ := a
  cases item with
  | none => rfl
  | some item =>
    cases item with
    | reference id symbol => rw [mapReference, Option.map_some, Item.mapId, h id symbol rfl]
    | _ => rfl

theorem mapReference_mapReference (f g : UInt32 → UInt32) (a : Attribute) :
    (a.mapReference f).mapReference g = a.mapReference (g ∘ f) := by
  obtain ⟨uri, name, resourceId, raw, item⟩ := a
  cases item with
  | none => rfl
  | some item => cases item <;> rfl

theorem not_refersInto_mapReference {old : List UInt32} {new : UInt32} (hnew : new.toNat ≤ 0xff)
    (hfresh : new ∉ old) (a : Attribute) :
    ¬ (a.mapReference (moveId old new)).RefersInto old := by
  rintro ⟨id, name, hitem, hid⟩
  obtain ⟨id', -, rfl⟩ := item_of_mapReference hitem
  rw [moveId_div hnew] at hid
  split at hid
  · exact hfresh hid
  · exact absurd hid ‹_›

end Attribute

/-! ## Trees -/

namespace Node

mutual

/-- Changing the attributes of a tree changes those of each of its elements. -/
theorem elements_mapAttributes (f : Attribute → Attribute) :
    ∀ n : Node, (n.mapAttributes f).elements = n.elements.map (·.mapAttributes f)
  | .text _ => rfl
  | .element tag children => by
    rw [mapAttributes, elements, elements, List.map_cons, elementsAll_mapAttributesAll f children]
    rfl

theorem elementsAll_mapAttributesAll (f : Attribute → Attribute) :
    ∀ ns : List Node, elementsAll (mapAttributesAll f ns) =
      (elementsAll ns).map (·.mapAttributes f)
  | [] => rfl
  | n :: ns => by
    rw [mapAttributesAll, elementsAll, elementsAll, List.map_append, elements_mapAttributes f n,
      elementsAll_mapAttributesAll f ns]

end

mutual

theorem mapAttributes_mapAttributes (f g : Attribute → Attribute) :
    ∀ n : Node, (n.mapAttributes f).mapAttributes g = n.mapAttributes (g ∘ f)
  | .text _ => rfl
  | .element tag children => by
    rw [mapAttributes, mapAttributes, mapAttributes, List.map_map,
      mapAttributesAll_mapAttributesAll f g children]

theorem mapAttributesAll_mapAttributesAll (f g : Attribute → Attribute) :
    ∀ ns : List Node, mapAttributesAll g (mapAttributesAll f ns) = mapAttributesAll (g ∘ f) ns
  | [] => rfl
  | n :: ns => by
    rw [mapAttributesAll, mapAttributesAll, mapAttributesAll, mapAttributes_mapAttributes f g n,
      mapAttributesAll_mapAttributesAll f g ns]

end

mutual

/-- A change that fixes every attribute of a tree fixes the tree. -/
theorem mapAttributes_eq_self {f : Attribute → Attribute} :
    ∀ {n : Node}, (∀ e ∈ n.elements, ∀ a ∈ e.attributes, f a = a) → n.mapAttributes f = n
  | .text _, _ => rfl
  | .element tag children, h => by
    rw [elements, List.forall_mem_cons] at h
    have hattributes : tag.attributes.map f = tag.attributes :=
      (List.map_congr_left h.1).trans (List.map_id _)
    rw [mapAttributes, hattributes, mapAttributesAll_eq_self h.2]

theorem mapAttributesAll_eq_self {f : Attribute → Attribute} :
    ∀ {ns : List Node}, (∀ e ∈ elementsAll ns, ∀ a ∈ e.attributes, f a = a) →
      mapAttributesAll f ns = ns
  | [], _ => rfl
  | n :: ns, h => by
    rw [elementsAll, List.forall_mem_append] at h
    rw [mapAttributesAll, mapAttributes_eq_self h.1, mapAttributesAll_eq_self h.2]

end

/-- The resources that define the attributes of a tree, element by element. -/
def definingIds (n : Node) : List (List (Option UInt32)) :=
  n.elements.map (·.attributes.map (·.resourceId))

/-- A tree and what becomes of it when its references leave some packages. -/
structure ReferencesLeave (old : List UInt32) (n n' : Node) : Prop where
  /-- No reference into the packages is left at any depth. -/
  references : ∀ e ∈ n'.elements, ∀ a ∈ e.attributes, ¬ a.RefersInto old
  /-- Each attribute is defined by the resource that it was defined by. -/
  definingIds_eq : n'.definingIds = n.definingIds

theorem definingIds_mapAttributes (f : UInt32 → UInt32) (n : Node) :
    (n.mapAttributes (·.mapReference f)).definingIds = n.definingIds := by
  simp only [definingIds, elements_mapAttributes, List.map_map]
  refine List.map_congr_left fun e _ => ?_
  show (e.attributes.map (·.mapReference f)).map (·.resourceId) = e.attributes.map (·.resourceId)
  rw [List.map_map]
  rfl

/-- References that move to another package leave the old ones. -/
theorem referencesLeave {old : List UInt32} {new : UInt32} (hnew : new.toNat ≤ 0xff)
    (hfresh : new ∉ old) (n : Node) : ReferencesLeave old n (n.moveReferences old new) where
  references := by
    intro moved hmoved a ha
    rw [moveReferences, elements_mapAttributes] at hmoved
    obtain ⟨e, -, rfl⟩ := List.mem_map.1 hmoved
    obtain ⟨b, -, rfl⟩ := List.mem_map.1 ha
    exact Attribute.not_refersInto_mapReference hnew hfresh b
  definingIds_eq := definingIds_mapAttributes _ n

/-- A value in the tree refers to a resource of one of these packages. -/
def RefersInto (n : Node) (packages : List UInt32) : Prop :=
  ∃ e ∈ n.elements, ∃ a ∈ e.attributes, a.RefersInto packages

instance (n : Node) (packages : List UInt32) : Decidable (n.RefersInto packages) :=
  inferInstanceAs (Decidable (∃ e ∈ n.elements, ∃ a ∈ e.attributes, a.RefersInto packages))

/-- References stay when the packages move to the number that they have. -/
theorem moveReferences_self {old : List UInt32} {new : UInt32} (hold : ∀ q ∈ old, q = new)
    (n : Node) : n.moveReferences old new = n :=
  mapAttributes_eq_self fun _ _ _ _ =>
    Attribute.mapReference_eq_self fun id _ _ => moveId_self hold id

/-- References that moved away from the only package come back with it, if none
was into the new package before. -/
theorem moveReferences_back {old : List UInt32} {package new : UInt32}
    (hold : ∀ q ∈ old, q = package) (hnew : new.toNat ≤ 0xff) {n : Node}
    (hfree : ¬ n.RefersInto [new]) :
    (n.moveReferences old new).moveReferences (old.map fun _ => new) package = n := by
  rw [moveReferences, moveReferences, mapAttributes_mapAttributes]
  refine mapAttributes_eq_self fun e he a ha => ?_
  rw [Function.comp_apply, Attribute.mapReference_mapReference]
  refine Attribute.mapReference_eq_self fun id name hitem => moveId_back hold hnew fun hid => ?_
  exact hfree ⟨e, he, a, ha, id, name, hitem, List.mem_singleton.2 hid⟩

end Node

end AppBundle.Xml
