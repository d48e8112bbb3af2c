import AppBundle.Proofs.Xml.Canonical

/-!
# Edits keep trees canonical

An edit of an attribute finds it by name or by id, and makes a new one only
where no attribute has the name.  As long as it sets the value with a setter
(`Attribute.IsSetter`), the element stays canonical.  The delicate edit is the
one by id (`Element.canonical_alterAndroid`): it may give an id to an attribute
that was found by its name, and it never changes a name.
-/

namespace AppBundle.Xml

/-! ## Attributes -/

/-- A change of attributes that sets a value a document can hold, and no name. -/
structure Attribute.IsSetter (f : Attribute → Attribute) : Prop where
  /-- The name stays. -/
  fullName_eq : ∀ a, (f a).fullName = a.fullName
  /-- The attribute becomes canonical, if its id is not the one that stands for none. -/
  canonical : ∀ a, a.resourceId ≠ some 0 → (f a).Canonical

namespace Attribute

theorem isSetter_setText (text : String) : IsSetter (·.setText text) where
  fullName_eq _ := rfl
  canonical _ h := canonical_setText h text

theorem isSetter_setItem {item : Item} (h : item.FitsRaw "") : IsSetter (·.setItem item) where
  fullName_eq _ := rfl
  canonical _ hid := canonical_setItem hid h

theorem isSetter_setBoolean (value : Bool) : IsSetter (·.setBoolean value) := isSetter_setItem rfl

theorem isSetter_setDecimal (value : Int32) : IsSetter (·.setDecimal value) := isSetter_setItem rfl

/-- A setter can give the attribute an id beforehand. -/
theorem IsSetter.identified {f : Attribute → Attribute} (hf : IsSetter f) {id : UInt32}
    (hid : id ≠ 0) : IsSetter fun a => f { a with resourceId := some id } where
  fullName_eq _ := hf.fullName_eq _
  canonical _ _ := hf.canonical _ fun heq => hid (Option.some.inj heq)

end Attribute

/-! ## Elements -/

namespace Element

variable {e : Element} {f : Attribute → Attribute}

/-- A change of the start tag keeps the tree canonical when it keeps the start tag so. -/
theorem canonical_of_tag {e' : Element} (h : e.toNode.Canonical)
    (hchildren : e'.children = e.children) (htag : e.toTag.Canonical → e'.toTag.Canonical) :
    e'.toNode.Canonical :=
  Node.canonical_toNode.2 ((Node.canonical_toNode.1 h).of_children_eq hchildren htag)

theorem canonical_alter (h : e.toNode.Canonical) (hf : Attribute.IsSetter f) (uri name : String) :
    (e.alter uri name f).toNode.Canonical := by
  refine canonical_of_tag h rfl fun htag => ?_
  exact htag.modifyOrPush (hf.canonical _ nofun) (hf.fullName_eq _)
    (fun a ha => hf.canonical a ha.resourceId_ne) fun a _ => hf.fullName_eq a

/-- An attribute that is found by its id keeps its name; one that is found by
its name gets the id; and a new one has a name that is not there yet. -/
theorem canonical_alterAndroid (h : e.toNode.Canonical) (hf : Attribute.IsSetter f) (name : String)
    {id : UInt32} (hid : id ≠ 0) : (e.alterAndroid name id f).toNode.Canonical := by
  refine canonical_of_tag h rfl fun htag => ?_
  have hchange := hf.identified hid
  have hkeeps : ∀ a : Attribute, a.Canonical → (f { a with resourceId := some id }).Canonical :=
    fun a ha => hchange.canonical a ha.resourceId_ne
  unfold alterAndroid
  extract_lets change attributes
  show Tag.Canonical { e.toTag with attributes := attributes }
  simp only [attributes]
  split
  · refine ⟨htag.declarations_nodup, ?_, FirstMatch.forall_mem_modify hkeeps htag.attributes⟩
    rw [FirstMatch.map_modify fun a _ => hchange.fullName_eq a]
    exact htag.names_nodup
  · have hnew : (change (.android name id)).Canonical :=
      hf.canonical _ fun heq => hid (Option.some.inj heq)
    exact htag.modifyOrPush hnew (hf.fullName_eq _) hkeeps fun a _ => hchange.fullName_eq a

theorem canonical_erase (h : e.toNode.Canonical) (uri name : String) :
    (e.erase uri name).toNode.Canonical := by
  refine canonical_of_tag h rfl fun htag => ⟨htag.declarations_nodup, ?_, ?_⟩
  · exact htag.names_nodup.sublist (List.filter_sublist.map _)
  · intro a ha
    exact htag.attributes a (List.mem_filter.1 ha).1

end Element

end AppBundle.Xml
