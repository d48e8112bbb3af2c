import AppBundle.Proofs.Xml.Canonical
import AppBundle.Proofs.Xml.EditById
import AppBundle.Xml.Staging

/-!
# Assembled elements

An element that is made from nothing by edits is well formed (`Tag.WellFormed`):
no two of its attributes have one name, no declaration is made twice, and a
compiled value other than text stands alone.  So are the elements below it.

The edits are those of attributes (`Attribute.Setting`), which leave the name of
an attribute alone once it belongs to an element, and those of elements
(`Element.Operation`), which act on an element at any depth.  An edit that finds
its attribute changes no name, and one that does not find it adds a name that is
not there (`Tag.WellFormed.modifyOrPush`).  So each operation keeps what is well
formed (`Element.Operation.wellFormed_apply`), and what operations have made of
a new element is well formed (`Element.Assembled.wellFormed`).
-/

namespace AppBundle.Xml

/-! ## Attributes -/

namespace Attribute

/-- A setter that leaves the name of an attribute alone. -/
inductive Setting where
  /-- Sets the id of the resource that defines the attribute. -/
  | resourceId (id : UInt32)
  /-- Sets raw text. -/
  | text (text : String)
  /-- Sets compiled text beside the raw text. -/
  | compiledText (text : String)
  /-- Sets a compiled value alone. -/
  | item (item : Item)
  /-- Changes the id of the resource that the value refers to. -/
  | mapReference (f : UInt32 → UInt32)

/-- What a setter makes of an attribute. -/
def Setting.apply : Setting → Attribute → Attribute
  | resourceId id, a => { a with resourceId := some id }
  | text s, a => a.setText s
  | compiledText s, a => a.setCompiledText s
  | item i, a => a.setItem i
  | mapReference f, a => a.mapReference f

/-- What setters make of an attribute, one after another. -/
def setAll (settings : List Setting) (a : Attribute) : Attribute :=
  settings.foldl (fun a setting => setting.apply a) a

/-- An attribute that belongs to no element yet, made with setters.  It may still
get another name. -/
inductive Built : Attribute → Prop where
  | plain (namespaceUri name raw : String) : Built { namespaceUri, name, raw }
  | android (name : String) (id : UInt32) (raw : String) : Built { android name id with raw }
  | rename {a : Attribute} (h : Built a) (namespaceUri name : String) :
    Built { a with namespaceUri, name }
  | set {a : Attribute} (h : Built a) (setting : Setting) : Built (setting.apply a)

/-- A compiled value other than text stands alone. -/
def ValueAlone (a : Attribute) : Prop := ∀ item ∈ a.item, item.kind ≠ .string → a.raw = ""

instance (a : Attribute) : Decidable a.ValueAlone :=
  inferInstanceAs (Decidable (∀ item ∈ a.item, item.kind ≠ .string → a.raw = ""))

variable {a : Attribute}

theorem Setting.fullName_apply (setting : Setting) (a : Attribute) :
    (setting.apply a).fullName = a.fullName := by
  cases setting <;> rfl

theorem valueAlone_of_item_eq_none (h : a.item = none) : a.ValueAlone := by
  intro item hitem
  rw [h] at hitem
  cases hitem

theorem Setting.valueAlone_apply (setting : Setting) (h : a.ValueAlone) :
    (setting.apply a).ValueAlone := by
  cases setting with
  | resourceId id => exact h
  | text s => exact valueAlone_of_item_eq_none rfl
  | compiledText s =>
    rintro item hitem hkind
    cases hitem
    exact absurd rfl hkind
  | item i => exact fun _ _ _ => rfl
  | mapReference f =>
    rintro item hitem hkind
    obtain ⟨before, hbefore, rfl⟩ := Option.map_eq_some_iff.1 hitem
    refine h before hbefore fun hstring => hkind ?_
    cases before <;> exact hstring

theorem fullName_setAll (settings : List Setting) (a : Attribute) :
    (a.setAll settings).fullName = a.fullName := by
  induction settings generalizing a with
  | nil => rfl
  | cons setting settings ih => exact (ih _).trans (setting.fullName_apply a)

theorem valueAlone_setAll (settings : List Setting) (h : a.ValueAlone) :
    (a.setAll settings).ValueAlone :=
  List.foldlRecOn settings _ h fun _ hb setting _ => setting.valueAlone_apply hb

theorem Built.valueAlone (h : Built a) : a.ValueAlone := by
  induction h with
  | plain uri name raw => exact valueAlone_of_item_eq_none rfl
  | android name id raw => exact valueAlone_of_item_eq_none rfl
  | rename _ uri name ih => exact ih
  | set _ setting ih => exact setting.valueAlone_apply ih

end Attribute

/-! ## Start tags -/

/-- What holds of the start tags of assembled elements. -/
structure Tag.WellFormed (t : Tag) : Prop where
  /-- No two attributes have the same name in the same namespace. -/
  names_nodup : (t.attributes.map (·.fullName)).Nodup
  /-- No declaration is made twice. -/
  declarations_nodup : t.declarations.Nodup
  /-- Compiled values other than text stand alone. -/
  valueAlone : ∀ a ∈ t.attributes, a.ValueAlone

namespace Tag.WellFormed

theorem bare (uri name : String) : Tag.WellFormed { namespaceUri := uri, name } :=
  ⟨List.nodup_nil, List.nodup_nil, List.forall_mem_nil _⟩

variable {t : Tag} (h : t.WellFormed)

include h

/-- An edit that changes no name, or adds a name that is not there, keeps a start
tag well formed. -/
theorem modifyOrPush {p : Attribute → Bool} {f : Attribute → Attribute} {new : Attribute}
    (hname : ∀ a, p a → (f a).fullName = a.fullName)
    (hvalue : ∀ a : Attribute, a.ValueAlone → (f a).ValueAlone) (hnew : new.ValueAlone)
    (hmissed : t.attributes.find? p = none → new.fullName ∉ t.attributes.map (·.fullName)) :
    Tag.WellFormed { t with attributes := FirstMatch.modifyOrPush p f new t.attributes } where
  names_nodup := FirstMatch.nodup_map_modifyOrPush h.names_nodup hname hmissed
  declarations_nodup := h.declarations_nodup
  valueAlone := FirstMatch.forall_mem_modifyOrPush hvalue hnew h.valueAlone

theorem modify (p : Attribute → Bool) (settings : List Attribute.Setting) :
    Tag.WellFormed
      { t with attributes := FirstMatch.modify p (·.setAll settings) t.attributes } where
  names_nodup := by
    rw [FirstMatch.map_modify fun a _ => a.fullName_setAll settings]
    exact h.names_nodup
  declarations_nodup := h.declarations_nodup
  valueAlone := FirstMatch.forall_mem_modify
    (fun _ => Attribute.valueAlone_setAll settings) h.valueAlone

theorem map (settings : Attribute → List Attribute.Setting) :
    Tag.WellFormed
      { t with attributes := t.attributes.map fun a => a.setAll (settings a) } where
  names_nodup := by
    rw [List.map_map, List.map_congr_left fun a _ => a.fullName_setAll (settings a)]
    exact h.names_nodup
  declarations_nodup := h.declarations_nodup
  valueAlone := by
    intro a ha
    obtain ⟨b, hb, rfl⟩ := List.mem_map.1 ha
    exact Attribute.valueAlone_setAll (settings b) (h.valueAlone b hb)

theorem filter (p : Attribute → Bool) :
    Tag.WellFormed { t with attributes := t.attributes.filter p } where
  names_nodup := h.names_nodup.sublist (List.filter_sublist.map _)
  declarations_nodup := h.declarations_nodup
  valueAlone a ha := h.valueAlone a (List.mem_filter.1 ha).1

end Tag.WellFormed

/-! ## Operations -/

namespace Element

/-- An operation on one element that brings in no other one. -/
inductive Operation where
  | setName (name : String)
  | setNamespace (uri : String)
  | declare (d : Declaration)
  /-- Adds an attribute, in place of one of the same name. -/
  | insert (a : Attribute) (built : a.Built)
  /-- Sets the attribute of a name, which is made if need be. -/
  | alter (uri name : String) (settings : List Attribute.Setting)
  /-- Sets the attribute of an id, or of a name, which is made if need be. -/
  | alterAndroid (name : String) (id : UInt32) (settings : List Attribute.Setting)
  /-- Sets the attribute of a name, if it is there. -/
  | modify (uri name : String) (settings : List Attribute.Setting)
  /-- Sets the attribute of an id, if it is there. -/
  | modifyAndroid (id : UInt32) (settings : List Attribute.Setting)
  /-- Sets each attribute, here and below. -/
  | mapAttributes (settings : Attribute → List Attribute.Setting)
  | erase (uri name : String)
  | eraseAndroid (id : UInt32)
  | pushText (text : String)
  | eraseChildren (p : Element → Bool)

/-- What an operation makes of an element. -/
def Operation.apply : Operation → Element → Element
  | setName name, e => { e with name }
  | setNamespace namespaceUri, e => { e with namespaceUri }
  | declare d, e => e.declare d
  | insert a _, e => e.insert a
  | alter uri name settings, e => e.alter uri name (·.setAll settings)
  | alterAndroid name id settings, e => e.alterAndroid name id (·.setAll settings)
  | modify uri name settings, e => e.modify uri name (·.setAll settings)
  | modifyAndroid id settings, e => e.modifyAndroid id (·.setAll settings)
  | mapAttributes settings, e => e.mapAttributes fun a => a.setAll (settings a)
  | erase uri name, e => e.erase uri name
  | eraseAndroid id, e => e.eraseAndroid id
  | pushText text, e => e.pushText text
  | eraseChildren p, e => e.eraseChildren p

/-- An element that was made from nothing: a new one, or one that an operation made
of an element at some depth.  A child that is put in was made the same way. -/
inductive Assembled : Element → Prop where
  | create (namespaceUri name : String) : Assembled { namespaceUri, name }
  | operate {e e' : Element} (h : Assembled e) (way : List Nat) (op : Operation)
    (result : e.modifyAt? way op.apply = some e') : Assembled e'
  | push {e e' child : Element} (h : Assembled e) (hchild : Assembled child) (way : List Nat)
    (result : e.modifyAt? way (·.pushElement child) = some e') : Assembled e'
  /-- Looks for a child element, and puts a new one at the end where there is none. -/
  | alterChild {e e' new : Element} (h : Assembled e) (hnew : Assembled new) (way : List Nat)
    (p : Element → Bool) (result : e.modifyAt? way (·.alterChild p new fun e => e) = some e') :
    Assembled e'

variable {e : Element}

/-- The attribute of an id, or of a name, is changed or made without a change of names. -/
theorem wellFormed_alterAndroid (h : e.toTag.WellFormed) (name : String) (id : UInt32)
    (settings : List Attribute.Setting) :
    (e.alterAndroid name id (·.setAll settings)).toTag.WellFormed := by
  obtain ⟨p, hfirst, -, hedit⟩ := alterAndroid_eq_modifyOrPush e name id
  rw [hedit]
  refine h.modifyOrPush (fun a _ => Attribute.fullName_setAll settings _)
    (fun a ha => Attribute.valueAlone_setAll settings ha)
    (Attribute.valueAlone_setAll settings (Attribute.valueAlone_of_item_eq_none rfl))
    fun hnone => ?_
  rw [hfirst, Option.or_eq_none_iff] at hnone
  rw [Attribute.identify, Attribute.fullName_setAll]
  exact Tag.not_mem_names_of_find?_none hnone.2

/-- Every operation keeps the start tags well formed. -/
theorem Operation.wellFormed_apply (op : Operation) (h : e.toNode.AllTags Tag.WellFormed) :
    (op.apply e).toNode.AllTags Tag.WellFormed := by
  cases op with
  | setName name =>
    exact h.of_children_eq rfl fun ht => ⟨ht.names_nodup, ht.declarations_nodup, ht.valueAlone⟩
  | setNamespace uri =>
    exact h.of_children_eq rfl fun ht => ⟨ht.names_nodup, ht.declarations_nodup, ht.valueAlone⟩
  | declare d =>
    rw [Operation.apply, declare_eq]
    refine h.of_children_eq rfl fun ht => ?_
    have hdeclarations := nodup_declare ht.declarations_nodup d
    rw [declare_eq] at hdeclarations
    exact ⟨ht.names_nodup, hdeclarations, ht.valueAlone⟩
  | insert a built =>
    refine h.of_children_eq rfl fun ht => ?_
    exact ht.modifyOrPush (fun b hb => (Attribute.isNamed_iff.1 hb).symm)
      (fun _ _ => built.valueAlone) built.valueAlone Tag.not_mem_names_of_find?_none
  | alter uri name settings =>
    refine h.of_children_eq rfl fun ht => ?_
    refine ht.modifyOrPush (fun a _ => a.fullName_setAll settings)
      (fun _ => Attribute.valueAlone_setAll settings)
      (Attribute.valueAlone_setAll settings (Attribute.valueAlone_of_item_eq_none rfl))
      fun hnone => ?_
    rw [Attribute.fullName_setAll]
    exact Tag.not_mem_names_of_find?_none hnone
  | alterAndroid name id settings =>
    exact h.of_children_eq rfl fun ht => wellFormed_alterAndroid ht name id settings
  | modify uri name settings => exact h.of_children_eq rfl fun ht => ht.modify _ settings
  | modifyAndroid id settings => exact h.of_children_eq rfl fun ht => ht.modify _ settings
  | mapAttributes settings => exact Node.AllTags.mapAttributes h fun _ ht => ht.map settings
  | erase uri name => exact h.of_children_eq rfl fun ht => ht.filter _
  | eraseAndroid id => exact h.of_children_eq rfl fun ht => ht.filter _
  | pushText text => exact h.push (Node.allTags_text text)
  | eraseChildren p => exact h.eraseChildren p

/-- The start tags of an assembled element are well formed at every depth. -/
theorem Assembled.wellFormed (h : Assembled e) : e.toNode.AllTags Tag.WellFormed := by
  induction h with
  | create uri name => exact .of_childless (.bare uri name) rfl
  | operate _ way op result ih => exact ih.modifyAt? (fun _ => op.wellFormed_apply) result
  | push _ _ way result ih ihchild => exact ih.modifyAt? (fun _ he => he.push ihchild) result
  | alterChild _ _ way p result ih ihnew =>
    exact ih.modifyAt? (fun _ he => he.alterChild ihnew (fun _ hchild => hchild) p) result

/-- Whatever edits made of a new element: at every depth no two attributes have one
name, no declaration is made twice and a compiled value other than text stands
alone, and the staging copy of the tree builds the same tree. -/
theorem Assembled.wellFormed_and_build_stage (h : Assembled e) :
    e.toNode.AllTags Tag.WellFormed ∧ e.toNode.stage.build = e.toNode :=
  ⟨h.wellFormed, Node.build_stage e.toNode⟩

/-- An application with a label and meta-data, both first set to text and then to
a value of another kind. -/
def brandedApplication : Element where
  name := "application"
  declarations := [⟨"android", androidUri⟩]
  attributes := [(Attribute.android "label" 0x01010001).setItem (.reference 0x7f010000 none)]
  children := [Element.toNode {
    name := "meta-data"
    attributes := [
      { name := "value", resourceId := some Platform.valueId, item := some (.boolean true) }] }]

theorem assembled_brandedApplication : Assembled brandedApplication := by
  have hmetaData : Assembled { name := "meta-data" } := .create "" "meta-data"
  have hvalue : Attribute.Built { name := "value", raw := "yes" } := .plain "" "value" "yes"
  have h := Assembled.create "" "application"
  replace h := h.operate [] (.declare ⟨"android", androidUri⟩) rfl
  replace h := h.operate [] (.declare ⟨"android", androidUri⟩) rfl
  replace h := h.operate [] (.alterAndroid "label" 0x01010001 [.text "Gallery"]) rfl
  replace h := h.alterChild hmetaData [] (·.isCalled "meta-data") rfl
  replace h := h.alterChild hmetaData [] (·.isCalled "meta-data") rfl
  replace h := h.operate [0] (.insert _ hvalue) rfl
  replace h := h.operate [0] (.modify "" "value" [.resourceId Platform.valueId]) rfl
  replace h := h.operate [0] (.modifyAndroid Platform.valueId [.item (.boolean true)]) rfl
  replace h := h.operate [] (.alter androidUri "label" [.item (.reference 0x7e010000 none)]) rfl
  exact h.operate [] (.mapAttributes fun _ => [.mapReference fun _ => 0x7f010000]) rfl

theorem wellFormed_and_build_stage_brandedApplication :
    Assembled brandedApplication ∧ brandedApplication.toNode.AllTags Tag.WellFormed ∧
      brandedApplication.toNode.stage.build = brandedApplication.toNode :=
  ⟨assembled_brandedApplication, assembled_brandedApplication.wellFormed_and_build_stage⟩

end Element

end AppBundle.Xml
