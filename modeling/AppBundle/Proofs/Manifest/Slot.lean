import AppBundle.Manifest.Edit
import AppBundle.Proofs.Xml.Lookup

/-!
# Slots of a manifest

A slot is where an attribute of a manifest stands: on the root, on a child of
the root, or on meta-data of the application (`Slot`).  Readers look into slots
(`Slot.get?`), and edits change what stands in one, making the elements on the
way there when they are missing (`Slot.alter`).

Reader and edit go different ways to a slot.  A reader takes the first child of
a name whatever its namespace is, an edit the first one without a namespace.
They meet when the first child of the name has no namespace
(`Slot.get?_alter_self`), unless the edit takes the name of the meta-data that it
is made in (`Slot.get?_alter_of_renamed`).  When it has one, the reader does not
notice the edit (`Slot.get?_alter_of_foreign`).

An edit in one slot leaves all others alone where attributes are regular
(`Slot.get?_alter_of_ne`), and child elements that are none of the hosts in any
case (`Slot.filter_alter`).
-/

namespace AppBundle.Manifest

open Xml

/-- The children of the root that hold attributes of the module. -/
inductive Host where
  /-- The application element. -/
  | application
  /-- The element of SDK versions. -/
  | usesSdk
deriving DecidableEq

/-- The name of a host. -/
def Host.text : Host → String
  | application => "application"
  | usesSdk => "uses-sdk"

theorem Host.text_injective {host other : Host} (h : host.text = other.text) : host = other := by
  cases host with
  | application =>
    cases other with
    | application => rfl
    | usesSdk => exact absurd h (by decide)
  | usesSdk =>
    cases other with
    | application => exact absurd h (by decide)
    | usesSdk => rfl

/-- Where an attribute of a manifest stands. -/
inductive Slot where
  /-- On the root. -/
  | root (key : Key)
  /-- On a child of the root. -/
  | child (host : Host) (key : Key)
  /-- On meta-data of the application, as its value. -/
  | metaData (name : String)
deriving DecidableEq

namespace Slot

/-- How the attribute is found on its element. -/
def key : Slot → Key
  | root key => key
  | child _ key => key
  | metaData _ => .platform Platform.valueId

/-- The child of the root on the way to the slot. -/
def host? : Slot → Option Host
  | root _ => none
  | child host _ => some host
  | metaData _ => some .application

/-- The attribute in a slot. -/
def get? : Slot → Element → Option Attribute
  | root key, r => r.read? key
  | child host key, r => (r.childCalled? host.text).bind (·.read? key)
  | metaData name, r =>
    (r.childCalled? Host.application.text).bind fun app =>
      (app.childElements.find? (isMetaData name)).bind (·.read? (.platform Platform.valueId))

/-- Changes the element of a slot. -/
def alter (g : Element → Element) : Slot → Element → Element
  | root _, r => g r
  | child host _, r => r.alterChildNamed "" host.text g
  | metaData name, r =>
    r.alterChildNamed "" Host.application.text (·.alterChild (isMetaData name) (newMetaData name) g)

end Slot

/-! ## Meta-data -/

variable {g : Element → Element} {e : Element} {name : String}

theorem regular_newMetaData (name : String) : (newMetaData name).toTag.Regular := by
  have hid : Platform.attributeId? "name" = some Platform.nameId := rfl
  exact (Element.local_alterAndroid (Attribute.setsValue_setText name) hid).regular _
    (List.forall_mem_nil _)

theorem isMetaData_newMetaData (name : String) : isMetaData name (newMetaData name) := by
  have hname := Element.android?_alterAndroid { name := "meta-data" }
    (Attribute.setsValue_setText name) "name" Platform.nameId
  rw [isMetaData, hasNameAttribute, newMetaData, hname]
  exact Bool.and_eq_true_iff.2 ⟨rfl, beq_self_eq_true (some name)⟩

/-- Where attributes are regular, the value of meta-data is not its name. -/
theorem isMetaData_of_local (hg : Element.Local (.platform Platform.valueId) g)
    (he : e.toTag.Regular) (name : String) : isMetaData name (g e) = isMetaData name e := by
  have hread : (g e).android? Platform.nameId = e.android? Platform.nameId :=
    hg.read?_of_ne e he (.platform Platform.nameId) (by decide)
  rw [isMetaData, isMetaData, hasNameAttribute, hasNameAttribute, hg.name_eq, hread]

/-- Meta-data has one name. -/
theorem eq_of_isMetaData {other : String} (h : isMetaData name e) (hother : isMetaData other e) :
    other = name := by
  have hname := (Bool.and_eq_true_iff.1 h).2
  have hname' := (Bool.and_eq_true_iff.1 hother).2
  exact Option.some.inj ((eq_of_beq hname').symm.trans (eq_of_beq hname))

/-- Where attributes are regular, a change of the value of meta-data leaves
meta-data of other names alone. -/
theorem find?_alterChild_of_ne {app : Element} (happ : ∀ e ∈ app.childElements, e.toTag.Regular)
    (hg : Element.Local (.platform Platform.valueId) g) {other : String} (hne : other ≠ name) :
    (app.alterChild (isMetaData name) (newMetaData name) g).childElements.find? (isMetaData other) =
      app.childElements.find? (isMetaData other) := by
  have hother : ∀ e : Element, isMetaData name e → isMetaData other e = false := by
    intro e he
    rw [← Bool.not_eq_true]
    exact fun h => hne (eq_of_isMetaData he h)
  rw [Element.childElements_alterChild]
  refine FirstMatch.find?_modifyOrPush_of_disjoint ?_ ?_
  · intro e he hname
    rw [isMetaData_of_local hg (happ e he)]
    exact ⟨hother e hname, hother e hname⟩
  · rw [isMetaData_of_local hg (regular_newMetaData name)]
    exact hother _ (isMetaData_newMetaData name)

namespace Slot

variable {slot : Slot} {root : Element}

/-! ## The slot of an edit -/

/-- The change keeps the name of the meta-data that it is made in. -/
def KeepsName (g : Element → Element) (root : Element) : Slot → Prop
  | .root _ => True
  | child _ _ => True
  | metaData name => ∀ app, root.childCalled? Host.application.text = some app →
      ∀ e, app.childElements.find? (isMetaData name) = some e → isMetaData name (g e)

theorem exists_of_not_keepsName (h : ¬ slot.KeepsName g root) :
    ∃ name, slot = metaData name ∧ ∃ app, root.childCalled? Host.application.text = some app ∧
      ∃ e, app.childElements.find? (isMetaData name) = some e ∧ ¬ isMetaData name (g e) := by
  cases slot with
  | root key => exact absurd trivial h
  | child host key => exact absurd trivial h
  | metaData name => simpa [KeepsName] using h

/-- What was changed in a slot is what a reader finds there, if the first child of
the name on the way has no namespace. -/
theorem get?_alter_self (hg : Element.Local slot.key g)
    (hhost : ∀ host ∈ slot.host?, ∀ e, root.childCalled? host.text = some e → e.namespaceUri = "")
    (hkeeps : slot.KeepsName g root) :
    ∃ e, slot.get? (slot.alter g root) = (g e).read? slot.key := by
  cases slot with
  | root key => exact ⟨root, rfl⟩
  | child host key =>
    refine ⟨(root.childCalled? host.text).getD { name := host.text }, ?_⟩
    rw [get?, alter, Element.childCalled?_alterChildNamed hg.name_eq (hhost host rfl)]
    rfl
  | metaData name =>
    have happlication := Element.childCalled?_alterChildNamed
      (g := (·.alterChild (isMetaData name) (newMetaData name) g)) (fun _ => rfl)
      (hhost .application rfl)
    rw [get?, alter, happlication, Option.bind_some, Element.childElements_alterChild,
      FirstMatch.find?_modifyOrPush_self]
    · exact ⟨_, rfl⟩
    · exact fun _ => List.find?_some
    · cases happ : root.childCalled? Host.application.text with
      | none => exact nofun
      | some app => exact hkeeps app happ
    · rw [isMetaData_of_local hg (regular_newMetaData name)]
      exact isMetaData_newMetaData name

/-- A first child of the name that has a namespace hides the edit from the reader. -/
theorem get?_alter_of_foreign {host : Host} (hhost : slot.host? = some host) {e : Element}
    (he : root.childCalled? host.text = some e) (huri : e.namespaceUri ≠ "") :
    slot.get? (slot.alter g root) = slot.get? root := by
  cases slot with
  | root key => cases hhost
  | child host' key =>
    cases hhost
    rw [get?, get?, alter, Element.childCalled?_alterChildNamed_of_foreign he huri, he]
  | metaData name =>
    cases hhost
    rw [get?, get?, alter, Element.childCalled?_alterChildNamed_of_foreign he huri, he]

/-- When meta-data loses its name by the change, a reader finds the next of the name. -/
theorem get?_alter_of_renamed {app : Element}
    (happ : root.childCalled? Host.application.text = some app) (huri : app.namespaceUri = "")
    {e : Element} (he : app.childElements.find? (isMetaData name) = some e)
    (hlost : ¬ isMetaData name (g e)) :
    (metaData name).get? ((metaData name).alter g root) =
      ((app.childElements.filter (isMetaData name))[1]?).bind
        (·.read? (.platform Platform.valueId)) := by
  have hfirst : ∀ e, root.childCalled? Host.application.text = some e → e.namespaceUri = "" := by
    intro e he
    cases happ.symm.trans he
    exact huri
  have happlication := Element.childCalled?_alterChildNamed
    (g := (·.alterChild (isMetaData name) (newMetaData name) g)) (fun _ => rfl) hfirst
  rw [get?, alter, happlication, happ, Option.getD_some, Option.bind_some,
    Element.childElements_alterChild, FirstMatch.find?_modifyOrPush_of_lost he he hlost]

/-! ## Other slots -/

variable {other : Slot}

/-- Where attributes are regular, a change in one slot leaves the others alone. -/
theorem get?_alter_of_ne (hg : Element.Local slot.key g) (hroot : root.toNode.AllTags Tag.Regular)
    (hne : other ≠ slot) : other.get? (slot.alter g root) = other.get? root := by
  cases slot with
  | root key =>
    have hchildren := hg.childElements_eq root
    cases other with
    | root key' => exact hg.read?_of_ne root hroot.tag key' fun h => hne (congrArg Slot.root h)
    | child host' key' =>
      rw [get?, get?, alter, Element.childCalled?, hchildren, Element.childCalled?]
    | metaData name => rw [get?, get?, alter, Element.childCalled?, hchildren, Element.childCalled?]
  | child host key =>
    cases other with
    | root key' => rfl
    | child host' key' =>
      refine Element.bind_childCalled?_alterChildNamed hg.name_eq fun htext => ?_
      -- The two slots are on one host, so their keys differ.
      obtain rfl := Host.text_injective htext
      have hkey : key' ≠ key := fun h => hne (congrArg (child host') h)
      refine ⟨fun e he => ?_, ?_⟩
      · exact hg.read?_of_ne e (hroot.of_mem_childElements he).tag key' hkey
      · exact hg.read?_of_ne { name := host'.text } (List.forall_mem_nil _) key' hkey
    | metaData name =>
      refine Element.bind_childCalled?_alterChildNamed hg.name_eq fun _ => ⟨fun e _ => ?_, ?_⟩
      · rw [hg.childElements_eq]
      · rw [hg.childElements_eq]
        rfl
  | metaData name =>
    cases other with
    | root key' => rfl
    | child host key' =>
      exact Element.bind_childCalled?_alterChildNamed (fun _ => rfl) fun _ => ⟨fun _ _ => rfl, rfl⟩
    | metaData name' =>
      have hname : name' ≠ name := fun h => hne (congrArg metaData h)
      refine Element.bind_childCalled?_alterChildNamed (fun _ => rfl) fun _ =>
        ⟨fun app happ => ?_, ?_⟩
      · have hbelow := hroot.of_mem_childElements happ
        rw [find?_alterChild_of_ne (fun e he => (hbelow.of_mem_childElements he).tag) hg hname]
      · rw [find?_alterChild_of_ne (List.forall_mem_nil _) hg hname]
        rfl

/-- A test that no host passes sees no change among the children of the root. -/
theorem filter_alter (hg : Element.Local slot.key g) {q : Element → Bool}
    (hq : ∀ e host, e.isCalled (Host.text host) → q e = false) :
    (slot.alter g root).childElements.filter q = root.childElements.filter q := by
  have hhost : ∀ (host : Host) {g : Element → Element}, (∀ e, (g e).name = e.name) →
      (root.alterChildNamed "" host.text g).childElements.filter q =
        root.childElements.filter q := by
    intro host g hname
    rw [Element.alterChildNamed, Element.childElements_alterChild]
    refine FirstMatch.filter_modifyOrPush_of_disjoint ?_ ?_
    · intro e _ he
      have hcalled := (Element.isNamed_iff.1 he).1
      exact ⟨hq e host (Element.isCalled_iff.2 hcalled),
        hq (g e) host (Element.isCalled_iff.2 ((hname e).trans hcalled))⟩
    · exact hq _ host (Element.isCalled_iff.2 (hname _))
  cases slot with
  | root key => rw [alter, hg.childElements_eq]
  | child host key => exact hhost host hg.name_eq
  | metaData name => exact hhost .application fun _ => rfl

/-! ## Start tags at any depth -/

/-- What a change keeps of the start tags in an element, it keeps in a slot, if
the elements that are made on the way have it. -/
theorem allTags_alter {P : Tag → Prop}
    (hg : ∀ e : Element, e.toNode.AllTags P → (g e).toNode.AllTags P) (hbare : ∀ name, P { name })
    (hmeta : ∀ name, P (newMetaData name).toTag) (hroot : root.toNode.AllTags P) :
    (slot.alter g root).toNode.AllTags P := by
  have hhost : ∀ name : String, (Element.toNode { name }).AllTags P :=
    fun name => .of_childless (hbare name) rfl
  cases slot with
  | root key => exact hg root hroot
  | child host key => exact hroot.alterChild (hhost host.text) hg _
  | metaData name =>
    have hnew : (newMetaData name).toNode.AllTags P := .of_childless (hmeta name) rfl
    exact hroot.alterChild (hhost _) (fun app happ => happ.alterChild hnew hg _) _

theorem regular_alter (hg : Element.Local slot.key g) (hroot : root.toNode.AllTags Tag.Regular) :
    (slot.alter g root).toNode.AllTags Tag.Regular :=
  allTags_alter (fun e he => he.of_children_eq (hg.children_eq e) (hg.regular e))
    (fun _ => List.forall_mem_nil _) regular_newMetaData hroot

end Slot

/-! ## Ordinary roots -/

/-- A root whose hosts have no namespace, with regular attributes at any depth.
Readers and edits meet in all its slots. -/
structure Ordinary (root : Element) : Prop where
  /-- Attributes are regular. -/
  regular : root.toNode.AllTags Tag.Regular
  /-- Children with the name of a host have no namespace. -/
  hosts : ∀ e ∈ root.childElements, ∀ host : Host, e.isCalled host.text → e.namespaceUri = ""

namespace Ordinary

variable {slot : Slot} {root : Element}

theorem keepsName (h : Ordinary root) (hg : Element.Local slot.key g) : slot.KeepsName g root := by
  cases slot with
  | root key => trivial
  | child host key => trivial
  | metaData name =>
    intro app happ e he
    have hbelow := h.regular.of_mem_childElements (List.mem_of_find?_eq_some happ)
    have hmeta := hbelow.of_mem_childElements (List.mem_of_find?_eq_some he)
    rw [isMetaData_of_local hg hmeta.tag]
    exact List.find?_some he

theorem namespaceUri_of_childCalled? (h : Ordinary root) {host : Host} {e : Element}
    (he : root.childCalled? host.text = some e) : e.namespaceUri = "" := by
  have hcalled := List.find?_some he
  exact h.hosts e (List.mem_of_find?_eq_some he) host hcalled

/-- A root stays ordinary. -/
theorem alter (h : Ordinary root) (hg : Element.Local slot.key g) :
    Ordinary (slot.alter g root) := by
  refine ⟨Slot.regular_alter hg h.regular, ?_⟩
  -- The host that is changed keeps its name and namespace; one that is made has none.
  have hhost : ∀ (host : Host) {g : Element → Element}, (∀ e, (g e).name = e.name) →
      (∀ e, (g e).namespaceUri = e.namespaceUri) →
        ∀ e ∈ (root.alterChildNamed "" host.text g).childElements,
          ∀ host : Host, e.isCalled host.text → e.namespaceUri = "" := by
    intro host g hname huri
    rw [Element.alterChildNamed, Element.childElements_alterChild]
    refine FirstMatch.forall_mem_modifyOrPush ?_ (fun _ _ => huri _) h.hosts
    intro e he host' hcalled
    rw [Element.isCalled, hname] at hcalled
    exact (huri e).trans (he host' hcalled)
  cases slot with
  | root key =>
    rw [Slot.alter, hg.childElements_eq]
    exact h.hosts
  | child host key => exact hhost host hg.name_eq hg.namespaceUri_eq
  | metaData name => exact hhost .application (fun _ => rfl) fun _ => rfl

end Ordinary

end AppBundle.Manifest
