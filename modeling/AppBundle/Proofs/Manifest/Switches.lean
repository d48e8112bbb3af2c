import AppBundle.Proofs.Manifest.Answer
import AppBundle.Proofs.Xml.EditById
import AppBundle.Proofs.Xml.Tags
import Mathlib.Data.List.Induction
import Mathlib.Logic.Function.Basic

/-!
# Rows of switches

A row of switches turns settings of the application on and off.  Only the last
value of each setting counts (`lastSetting?`): the row leaves the manifest in
which each setting was set once, to that value, in a fixed order
(`NameApart.edit_switches`).  So the tree does not tell in which order the settings were
made, how often, or whether the row was repeated (`edit_switches_congr`).

Two facts about one step carry this.  Setting a value again overwrites it
(`Switch.set_set`), since what the first edit changed or made is what the second
one finds.  And the settings stand in different parts of the application, one
among its attributes and one below it (`Switch.set_comm`).

The first fact needs the name of meta-data to stay while its value is set.  An
attribute that is called `value` and has the id of the name would be taken for
the value, and its name be lost.  Attributes that are told apart the same way by
name and by id (`Tag.Identified`) exclude it.
-/

namespace AppBundle

namespace Xml

/-! ## Repeated edits -/

namespace Element

/-- A change of a child element finds the one that the same change changed or made before. -/
theorem alterChild_alterChild {e : Element} {p : Element → Bool} {new : Element}
    {f g h : Element → Element}
    (hf : ∀ child ∈ e.childElements, p child → p (f child) ∧ g (f child) = h child)
    (hnew : p (f new) ∧ g (f new) = h new) :
    (e.alterChild p new f).alterChild p new g = e.alterChild p new h := by
  have hnodes : ∀ n ∈ e.children, onNode p n →
      onNode p (inNode f n) ∧ inNode g (inNode f n) = inNode h n := by
    intro n hn hp
    cases n with
    | text s => cases hp
    | element tag children =>
      obtain ⟨hkept, hchange⟩ := hf ⟨tag, children⟩ (List.mem_filterMap.2 ⟨_, hn, rfl⟩) hp
      exact ⟨hkept, congrArg toNode hchange⟩
  have hmade : onNode p (inNode f new.toNode) ∧
      inNode g (inNode f new.toNode) = inNode h new.toNode := ⟨hnew.1, congrArg toNode hnew.2⟩
  refine congrArg (fun children => { e with children }) ?_
  exact FirstMatch.modifyOrPush_modifyOrPush (fun _ _ hn => hn) hnodes hmade _

end Element

/-! ## Names and values of meta-data -/

/-- The attributes that switches look for, with the ids that define them. -/
def switchAttributes : List (String × UInt32) := [
  ("extractNativeLibs", Platform.extractNativeLibsId), ("name", Platform.nameId),
  ("value", Platform.valueId)]

/-- An attribute with the id of one that switches look for is that one, and one with
its name has its id or none. -/
def Attribute.Identified (a : Attribute) : Prop :=
  ∀ row ∈ switchAttributes, (a.hasId row.2 → a.isNamed androidUri row.1) ∧
    (a.isNamed androidUri row.1 → a.resourceId = some row.2 ∨ a.resourceId = none)

instance (a : Attribute) : Decidable a.Identified :=
  inferInstanceAs (Decidable (∀ row ∈ switchAttributes, _))

/-- All attributes of a start tag are identified. -/
def Tag.Identified (t : Tag) : Prop := ∀ a ∈ t.attributes, a.Identified

instance (t : Tag) : Decidable t.Identified := inferInstanceAs (Decidable (∀ a ∈ t.attributes, _))

/-- No attribute that is called `value` has the id of the name. -/
def Tag.NameApart (t : Tag) : Prop :=
  ∀ a ∈ t.attributes, a.isNamed androidUri "value" → a.hasId Platform.nameId = false

theorem Tag.Identified.nameApart {t : Tag} (ht : t.Identified) : t.NameApart := by
  intro a ha hvalue
  rw [← Bool.not_eq_true]
  intro hid
  have hname := (ht a ha ("name", Platform.nameId) (by decide)).1 hid
  obtain ⟨-, hname⟩ := Prod.mk.inj (Attribute.isNamed_iff.1 hname)
  obtain ⟨-, hvalue⟩ := Prod.mk.inj (Attribute.isNamed_iff.1 hvalue)
  exact absurd (hname.symm.trans hvalue) (by decide)

/-- Regular attributes that are called `value` have another id. -/
theorem Tag.Regular.nameApart {t : Tag} (ht : t.Regular) : t.NameApart := by
  intro a ha hvalue
  have hid : a.hasId Platform.valueId := (ht a ha).hasId_of_isNamed rfl hvalue
  have hne : Key.platform Platform.nameId ≠ .platform Platform.valueId := by decide
  exact (ht a ha).test_eq_false hne hid

/-- Attributes that get another id than the name's stay apart from it. -/
theorem Element.nameApart_alterAndroid {e : Element} (he : e.toTag.NameApart)
    {f : Attribute → Attribute} (hf : Attribute.SetsValue f) (name : String) {id : UInt32}
    (hid : Platform.nameId ≠ id) : (e.alterAndroid name id f).toTag.NameApart := by
  obtain ⟨p, -, -, hedit⟩ := alterAndroid_eq_modifyOrPush e name id
  have hchange (a : Attribute) : (a.identify id f).hasId Platform.nameId = false :=
    Attribute.hasId_eq_false_of_ne (hf.hasId_identify id a) hid
  rw [hedit]
  exact FirstMatch.forall_mem_modifyOrPush (fun a _ _ => hchange a) (fun _ => hchange _) he

end Xml

namespace Manifest

open Xml

variable {m : Manifest}

/-! ## One switch of an application -/

/-- Meta-data whose attributes are apart keeps its name while its value is set. -/
theorem isMetaData_alterAndroid {e : Element} (he : e.toTag.NameApart) {f : Attribute → Attribute}
    (hf : Attribute.SetsValue f) (name : String) :
    isMetaData name (e.alterAndroid "value" Platform.valueId f) = isMetaData name e := by
  have hread : (e.alterAndroid "value" Platform.valueId f).android? Platform.nameId =
      e.android? Platform.nameId := Element.android?_alterAndroid_of_apart hf (by decide) he
  rw [isMetaData, isMetaData, hasNameAttribute, hasNameAttribute, hread]
  rfl

theorem nameApart_newMetaData (name : String) : (newMetaData name).toTag.NameApart :=
  (regular_newMetaData name).nameApart

theorem setBoolean_setBoolean (on on' : Bool) (a : Attribute) :
    (a.setBoolean on).setBoolean on' = a.setBoolean on' := rfl

namespace Switch

/-- A setting that is set again has the new value alone. -/
theorem set_set {app : Element} (happ : app.toNode.AllTags Tag.NameApart) (setting : Switch)
    (on on' : Bool) : setting.set on' (setting.set on app) = setting.set on' app := by
  have hset := Attribute.setsValue_setItem (.boolean on)
  have hagain (e : Element) (name : String) (id : UInt32) :
      (e.alterAndroid name id (·.setBoolean on)).alterAndroid name id (·.setBoolean on') =
        e.alterAndroid name id (·.setBoolean on') :=
    Element.alterAndroid_alterAndroid hset (setBoolean_setBoolean on on') e name id
  cases setting with
  | extractNativeLibs => exact hagain app _ _
  | splitsRequired =>
    have hfound {e : Element} (he : e.toTag.NameApart) (hname : isMetaData splitsRequiredName e) :
        isMetaData splitsRequiredName
          (e.alterAndroid "value" Platform.valueId (·.setBoolean on)) :=
      (isMetaData_alterAndroid he hset _).trans hname
    refine Element.alterChild_alterChild (fun e he hname => ⟨?_, hagain e _ _⟩)
      ⟨hfound (nameApart_newMetaData _) (isMetaData_newMetaData _), hagain _ _ _⟩
    exact hfound (happ.of_mem_childElements he).tag hname

/-- Meta-data whose name is called `value` loses it, and is made once more. -/
example :
    let name : Attribute := {
      namespaceUri := androidUri, name := "value", resourceId := some Platform.nameId
      raw := splitsRequiredName }
    let app : Element := {
      name := "application"
      children := [Element.toNode { name := "meta-data", attributes := [name] }] }
    (splitsRequired.set true app).childElements.length = 1 ∧
      (splitsRequired.set true (splitsRequired.set true app)).childElements.length = 2 := by
  decide

/-- Settings stand in different parts of the application. -/
theorem set_comm {setting other : Switch} (hne : setting ≠ other) (on on' : Bool) (app : Element) :
    other.set on' (setting.set on app) = setting.set on (other.set on' app) := by
  cases setting with
  | extractNativeLibs =>
    cases other with
    | extractNativeLibs => exact absurd rfl hne
    | splitsRequired => rfl
  | splitsRequired =>
    cases other with
    | extractNativeLibs => rfl
    | splitsRequired => exact absurd rfl hne

theorem isNamed_set (setting : Switch) (on : Bool) (app : Element) (uri name : String) :
    (setting.set on app).isNamed uri name = app.isNamed uri name := by
  cases setting <;> rfl

end Switch

/-! ## One switch of a manifest -/

theorem ext_root {m m' : Manifest} (h : m.root = m'.root) : m = m' := by
  obtain ⟨root, _, _⟩ := m
  obtain ⟨root', _, _⟩ := m'
  cases h
  rfl

/-- The attributes of a manifest called `value` do not have the id of the name. -/
def NameApart (m : Manifest) : Prop := m.root.toNode.AllTags Tag.NameApart

namespace NameApart

variable (h : m.NameApart) (setting : Switch)

include h

theorem editOnce_switch (on : Bool) : (m.editOnce (.switch setting on)).NameApart := by
  have hset := Attribute.setsValue_setItem (.boolean on)
  rw [NameApart, root_editOnce]
  refine Slot.allTags_alter (fun e he => ?_) (fun _ => List.forall_mem_nil _)
    nameApart_newMetaData h
  cases setting with
  | extractNativeLibs =>
    exact he.of_children_eq rfl fun htag => Element.nameApart_alterAndroid htag hset _ (by decide)
  | splitsRequired =>
    exact he.of_children_eq rfl fun htag => Element.nameApart_alterAndroid htag hset _ (by decide)

/-- Two switches in a row are one change of the application. -/
theorem root_switch_switch {other : Switch} {on on' : Bool} {g : Element → Element}
    (hg : ∀ app : Element, app.toNode.AllTags Tag.NameApart →
      other.set on' (setting.set on app) = g app) :
    ((m.editOnce (.switch setting on)).editOnce (.switch other on')).root =
      alterApplication g m.root := by
  refine Element.alterChild_alterChild (fun app happ hnamed => ⟨?_, ?_⟩) ⟨?_, ?_⟩
  · exact (setting.isNamed_set on app _ _).trans hnamed
  · exact hg app (h.of_mem_childElements happ)
  · exact (setting.isNamed_set on _ _ _).trans (Element.isNamed_iff.2 ⟨rfl, rfl⟩)
  · exact hg _ (.of_childless (List.forall_mem_nil _) rfl)

/-- A switch takes the place of an earlier one of the same setting. -/
theorem switch_switch (on on' : Bool) :
    (m.editOnce (.switch setting on)).editOnce (.switch setting on') =
      m.editOnce (.switch setting on') :=
  ext_root (h.root_switch_switch setting fun _ happ => Switch.set_set happ setting on on')

/-- Switches of different settings can change places. -/
theorem switch_comm {other : Switch} (hne : setting ≠ other) (on on' : Bool) :
    (m.editOnce (.switch setting on)).editOnce (.switch other on') =
      (m.editOnce (.switch other on')).editOnce (.switch setting on) := by
  apply ext_root
  rw [h.root_switch_switch setting fun _ _ => rfl]
  exact (h.root_switch_switch other fun app _ => (Switch.set_comm hne on on' app).symm).symm

end NameApart

/-! ## Rows of switches -/

/-- The edits of a row of settings. -/
def switches (rows : List (Switch × Bool)) : List Edit := rows.map fun row => .switch row.1 row.2

/-- The last value of a setting in a row, if it is there. -/
def lastSetting? (rows : List (Switch × Bool)) (setting : Switch) : Option Bool :=
  rows.reverse.lookup setting

theorem lastSetting?_concat (rows : List (Switch × Bool)) (setting : Switch) (on : Bool) :
    lastSetting? (rows ++ [(setting, on)]) =
      Function.update (lastSetting? rows) setting (some on) := by
  funext other
  rw [lastSetting?, List.reverse_concat, List.lookup_cons, Function.update_apply]
  by_cases hother : other = setting
  · rw [if_pos hother, beq_iff_eq.2 hother]
  · rw [if_neg hother, beq_eq_false_iff_ne.2 hother]
    rfl

theorem lastSetting?_append_self (rows : List (Switch × Bool)) (setting : Switch) :
    lastSetting? (rows ++ rows) setting = lastSetting? rows setting := by
  rw [lastSetting?, List.reverse_append, List.lookup_append, Option.or_self, lastSetting?]

/-- The manifest with a setting at a value, or as it is where there is none. -/
def assign (setting : Switch) (value? : Option Bool) (m : Manifest) : Manifest :=
  value?.elim m fun on => m.editOnce (.switch setting on)

/-- The manifest with each setting at its value. -/
def settle (values : Switch → Option Bool) (m : Manifest) : Manifest :=
  (m.assign .extractNativeLibs (values .extractNativeLibs)).assign .splitsRequired
    (values .splitsRequired)

namespace NameApart

variable (h : m.NameApart) (setting : Switch) (value? : Option Bool)

include h

theorem assign : (m.assign setting value?).NameApart := by
  cases value? with
  | none => exact h
  | some on => exact h.editOnce_switch setting on

theorem assign_switch (on : Bool) :
    (m.assign setting value?).editOnce (.switch setting on) = m.assign setting (some on) := by
  cases value? with
  | none => rfl
  | some on' => exact h.switch_switch setting on' on

theorem assign_comm {other : Switch} (hne : setting ≠ other) (on : Bool) :
    (m.assign setting value?).editOnce (.switch other on) =
      (m.editOnce (.switch other on)).assign setting value? := by
  cases value? with
  | none => rfl
  | some on' => exact h.switch_comm setting hne on' on

/-- A switch of a manifest with settings at values changes one of the values. -/
theorem settle_switch (values : Switch → Option Bool) (on : Bool) :
    (m.settle values).editOnce (.switch setting on) =
      m.settle (Function.update values setting (some on)) := by
  have hfirst := h.assign .extractNativeLibs (values .extractNativeLibs)
  rw [settle, settle]
  cases setting with
  | extractNativeLibs =>
    rw [hfirst.assign_comm _ _ (by decide), h.assign_switch, Function.update_self,
      Function.update_of_ne (by decide)]
  | splitsRequired =>
    rw [hfirst.assign_switch, Function.update_self, Function.update_of_ne (by decide)]

/-- A row of switches leaves each setting at its last value. -/
theorem edit_switches (rows : List (Switch × Bool)) :
    m.edit (switches rows) = m.settle (lastSetting? rows) := by
  induction rows using List.reverseRecOn with
  | nil => rfl
  | append_singleton rows row ih =>
    rw [switches, List.map_append, edit, List.foldl_append, lastSetting?_concat,
      ← h.settle_switch, ← ih]
    rfl

end NameApart

/-- Where the attributes that switches look for are identified, a row of switches is
worth the last value of each setting in it, whatever its order and its length, and
nothing changes when the row is repeated. -/
theorem edit_switches_congr (h : m.root.toNode.AllTags Tag.Identified) :
    (∀ rows rows' : List (Switch × Bool),
      (∀ setting, lastSetting? rows setting = lastSetting? rows' setting) →
        m.edit (switches rows) = m.edit (switches rows')) ∧
      ∀ rows : List (Switch × Bool),
        (m.edit (switches rows)).edit (switches rows) = m.edit (switches rows) := by
  have hapart : m.NameApart := fun e he => (h e he).nameApart
  have hlast (rows rows' : List (Switch × Bool))
      (hrows : ∀ setting, lastSetting? rows setting = lastSetting? rows' setting) :
      m.edit (switches rows) = m.edit (switches rows') := by
    rw [hapart.edit_switches, hapart.edit_switches, funext hrows]
  refine ⟨hlast, fun rows => ?_⟩
  rw [edit, edit, ← List.foldl_append, switches, ← List.map_append]
  exact hlast _ _ (lastSetting?_append_self rows)

/-- A manifest with two applications.  The first has two meta-data of the name that
tells of splits, one with a value that has no id. -/
def galleryManifest : Manifest where
  root :=
    let named : Attribute := (Attribute.android "name" Platform.nameId).setText splitsRequiredName
    let plain : Attribute := { namespaceUri := androidUri, name := "value", raw := "false" }
    let metaData (attributes : List Attribute) : Element := { name := "meta-data", attributes }
    { name := "manifest"
      children := [
        Element.toNode {
          name := "application"
          attributes := [(Attribute.android "hasCode" Platform.hasCodeId).setBoolean true]
          children := [.text " ", (metaData [named, plain]).toNode, (metaData [named]).toNode] },
        Element.toNode { name := "application" }] }
  name_eq := rfl
  namespace_eq := rfl

/-- A row with the same last values backwards. -/
def galleryRow : List (Switch × Bool) := [
  (.extractNativeLibs, false), (.splitsRequired, true), (.extractNativeLibs, true),
  (.extractNativeLibs, false)]

theorem edit_switches_congr_gallery :
    galleryManifest.root.toNode.AllTags Tag.Identified ∧
      (∀ setting, lastSetting? galleryRow setting = lastSetting? galleryRow.reverse setting) ∧
      galleryManifest.edit (switches galleryRow) =
        galleryManifest.edit (switches galleryRow.reverse) ∧
      (galleryManifest.edit (switches galleryRow)).edit (switches galleryRow) =
        galleryManifest.edit (switches galleryRow) ∧
      (galleryManifest.edit (switches galleryRow)).extractNativeLibs? = .ok (some false) ∧
      (galleryManifest.edit (switches galleryRow)).splitsRequired? = .ok true := by
  have hgallery : galleryManifest.root.toNode.AllTags Tag.Identified := by decide
  have hlast : ∀ setting,
      lastSetting? galleryRow setting = lastSetting? galleryRow.reverse setting := by
    intro setting
    cases setting <;> decide
  obtain ⟨hrows, hrepeat⟩ := edit_switches_congr hgallery
  exact ⟨hgallery, hlast, hrows _ _ hlast, hrepeat galleryRow, by decide, by decide⟩

end Manifest

end AppBundle
