import AppBundle.Proofs.Xml.Canonical
import AppBundle.Xml.Platform

/-!
# Looking up attributes that were edited

A manifest has its attributes looked up in two ways (`Key`): by a name in no
namespace, or by the id of the resource that defines the attribute.  What was
set for a key is found by it, whatever the other attributes are
(`Element.attribute?_alter`, `Element.android?_alterAndroid`).

Whether it is found by another key as well depends on those.  An edit by id
falls back on the name, so in a binary document it may take over an attribute
that has the id of something else.  A text document has ids only where the
platform gives them (`Tag.Regular`), and there an edit for one key is not seen
with another (`Element.Local`).
-/

namespace AppBundle.Xml

/-! ## Keys -/

/-- How a reader finds an attribute. -/
inductive Key where
  /-- By its name, in no namespace. -/
  | plain (name : String)
  /-- By the id of the resource that defines it. -/
  | platform (id : UInt32)
deriving DecidableEq

/-- Whether an attribute is one that a reader looks for. -/
def Key.test : Key → Attribute → Bool
  | plain name, a => a.isNamed "" name
  | platform id, a => a.hasId id

/-- The attribute that a reader finds. -/
def Element.read? (e : Element) (key : Key) : Option Attribute := e.attributes.find? key.test

/-! ## Setting a value -/

/-- A change of attributes that sets the value and nothing else. -/
structure Attribute.SetsValue (f : Attribute → Attribute) : Prop where
  /-- The name stays. -/
  fullName_eq : ∀ a, (f a).fullName = a.fullName
  /-- The id stays. -/
  resourceId_eq : ∀ a, (f a).resourceId = a.resourceId

namespace Attribute

theorem setsValue_setText (text : String) : SetsValue (·.setText text) where
  fullName_eq _ := rfl
  resourceId_eq _ := rfl

theorem setsValue_setItem (item : Item) : SetsValue (·.setItem item) where
  fullName_eq _ := rfl
  resourceId_eq _ := rfl

namespace SetsValue

variable {f : Attribute → Attribute} (hf : SetsValue f) (a : Attribute)

include hf

theorem isNamed_eq (uri name : String) : (f a).isNamed uri name = a.isNamed uri name := by
  rw [Bool.eq_iff_iff, isNamed_iff, isNamed_iff, hf.fullName_eq]

theorem hasId_eq (id : UInt32) : (f a).hasId id = a.hasId id := by
  rw [hasId, hasId, hf.resourceId_eq]

theorem test_eq (key : Key) : key.test (f a) = key.test a := by
  cases key with
  | plain name => exact hf.isNamed_eq a "" name
  | platform id => exact hf.hasId_eq a id

end SetsValue

end Attribute

namespace Element

variable (e : Element) {f : Attribute → Attribute}

/-- What was set by name is found by that name. -/
theorem attribute?_alter (hf : Attribute.SetsValue f) (uri name : String) :
    (e.alter uri name f).attribute? uri name = some (f (.named e.attributes uri name)) := by
  refine FirstMatch.find?_modifyOrPush_self (fun _ => List.find?_some) ?_ ?_
  · intro a ha
    have hnamed := List.find?_some ha
    rwa [hf.isNamed_eq]
  · rw [hf.isNamed_eq, Attribute.isNamed_iff]
    rfl

/-- An edit by id changes the first attribute that has the id. -/
theorem alterAndroid_of_some {a : Attribute} {id : UInt32} (h : e.android? id = some a)
    (name : String) (f : Attribute → Attribute) :
    e.alterAndroid name id f =
      { e with
        attributes := FirstMatch.modify (·.hasId id) (fun a => f { a with resourceId := some id })
          e.attributes } := by
  have hany : e.attributes.any (·.hasId id) := List.isSome_find?.symm.trans (congrArg _ h)
  rw [alterAndroid, if_pos hany]

/-- Where none has the id, it falls back on the name. -/
theorem alterAndroid_of_none {id : UInt32} (h : e.android? id = none) (name : String)
    (f : Attribute → Attribute) :
    e.alterAndroid name id f =
      { e with
        attributes := FirstMatch.modifyOrPush (·.isNamed androidUri name)
          (fun a => f { a with resourceId := some id }) (f (.android name id)) e.attributes } := by
  have hany : e.attributes.any (·.hasId id) = false := List.isSome_find?.symm.trans (congrArg _ h)
  rw [alterAndroid, if_neg (Bool.eq_false_iff.1 hany)]
  rfl

/-- What was set by id is found by that id. -/
theorem android?_alterAndroid (hf : Attribute.SetsValue f) (name : String) (id : UInt32) :
    (e.alterAndroid name id f).android? id = some (f (.identified e.attributes name id)) := by
  let change (a : Attribute) : Attribute := f { a with resourceId := some id }
  have hchange : ∀ a, (change a).hasId id := by
    intro a
    rw [hf.hasId_eq, Attribute.hasId, beq_self_eq_true]
  cases hfind : e.android? id with
  | some a =>
    have hself : (FirstMatch.modify (·.hasId id) change e.attributes).find? (·.hasId id) =
        some (change a) := FirstMatch.find?_modify_self hfind (hchange a)
    rw [android?] at hfind
    rw [alterAndroid_of_some e hfind, android?, hself, Attribute.identified, hfind]
    rfl
  | none =>
    have hself : (FirstMatch.modifyOrPush (·.isNamed androidUri name) change
        (change (.android name id)) e.attributes).find? (·.hasId id) =
          some (change ((e.attributes.find? (·.isNamed androidUri name)).getD
            (.android name id))) := by
      refine FirstMatch.find?_modifyOrPush_self (fun a h => ?_) (fun a _ => hchange a) (hchange _)
      cases hfind.symm.trans h
    rw [android?] at hfind
    rw [alterAndroid_of_none e hfind, android?, Attribute.identified, hfind, Option.none_or]
    exact hself

/-- What was removed by name is not found by that name. -/
theorem attribute?_erase (uri name : String) : (e.erase uri name).attribute? uri name = none := by
  refine List.find?_eq_none.2 fun a ha => ?_
  have hnot := (List.mem_filter.1 ha).2
  rwa [Bool.not_eq_true', ← Bool.not_eq_true] at hnot

end Element

/-! ## Regular attributes -/

/-- The id of an attribute is the one that the platform gives its name. -/
def Attribute.Regular (a : Attribute) : Prop :=
  a.resourceId = if a.namespaceUri = androidUri then Platform.attributeId? a.name else none

instance (a : Attribute) : Decidable a.Regular := inferInstanceAs (Decidable (_ = _))

/-- All attributes of a start tag are regular. -/
def Tag.Regular (t : Tag) : Prop := ∀ a ∈ t.attributes, a.Regular

instance (t : Tag) : Decidable t.Regular := inferInstanceAs (Decidable (∀ a ∈ t.attributes, _))

namespace Attribute

variable {a : Attribute} {id : UInt32}

theorem SetsValue.regular {f : Attribute → Attribute} (hf : SetsValue f) (ha : a.Regular) :
    (f a).Regular := by
  have hname := hf.fullName_eq a
  rw [fullName, fullName, Prod.mk.injEq] at hname
  rw [Regular, hf.resourceId_eq, hname.1, hname.2]
  exact ha

/-- An attribute without a namespace has no id. -/
theorem Regular.hasId_eq_false (ha : a.Regular) (huri : a.namespaceUri = "") (id : UInt32) :
    a.hasId id = false := by
  rw [Regular, huri, if_neg (by decide)] at ha
  rw [hasId, ha]
  rfl

/-- An attribute of the platform has the id of its name. -/
theorem Regular.hasId_of_isNamed (ha : a.Regular) {name : String}
    (hname : Platform.attributeId? name = some id) (h : a.isNamed androidUri name) :
    a.hasId id := by
  obtain ⟨huri, rfl⟩ := Prod.mk.inj (isNamed_iff.1 h)
  rw [Regular, if_pos huri, hname] at ha
  rw [hasId, ha, beq_self_eq_true]

theorem regular_android {name : String} (hname : Platform.attributeId? name = some id) :
    (android name id).Regular := hname.symm

theorem regular_bare (name : String) : Regular { namespaceUri := "", name } := rfl

/-- No regular attribute is found by two keys. -/
theorem Regular.test_eq_false (ha : a.Regular) {key other : Key} (hne : other ≠ key)
    (h : key.test a) : other.test a = false := by
  rw [← Bool.not_eq_true]
  intro hother
  cases key with
  | plain name =>
    obtain ⟨huri, hname⟩ := Prod.mk.inj (isNamed_iff.1 h)
    cases other with
    | plain name' =>
      obtain ⟨-, hname'⟩ := Prod.mk.inj (isNamed_iff.1 hother)
      exact hne (congrArg Key.plain (hname'.symm.trans hname))
    | platform id => exact Bool.false_ne_true ((ha.hasId_eq_false huri id).symm.trans hother)
  | platform id =>
    cases other with
    | plain name =>
      obtain ⟨huri, -⟩ := Prod.mk.inj (isNamed_iff.1 hother)
      exact Bool.false_ne_true ((ha.hasId_eq_false huri id).symm.trans h)
    | platform id' =>
      have hid := Option.some.inj ((eq_of_beq h).symm.trans (eq_of_beq hother))
      exact hne (congrArg Key.platform hid.symm)

end Attribute

/-! ## Changes of one attribute -/

/-- A change of an element in one attribute, the one that a key finds. -/
structure Element.Local (key : Key) (g : Element → Element) : Prop where
  /-- The element keeps its name. -/
  name_eq : ∀ e, (g e).name = e.name
  /-- It keeps its namespace. -/
  namespaceUri_eq : ∀ e, (g e).namespaceUri = e.namespaceUri
  /-- It keeps its children. -/
  children_eq : ∀ e, (g e).children = e.children
  /-- Its attributes stay regular. -/
  regular : ∀ e : Element, e.toTag.Regular → (g e).toTag.Regular
  /-- Other keys find what they found. -/
  read?_of_ne : ∀ e : Element, e.toTag.Regular →
    ∀ other, other ≠ key → (g e).read? other = e.read? other

theorem Element.Local.childElements_eq {key : Key} {g : Element → Element}
    (hg : Element.Local key g) (e : Element) : (g e).childElements = e.childElements := by
  rw [childElements, hg.children_eq, childElements]

namespace Element

variable {f : Attribute → Attribute}

/-- Among regular attributes, what is set for one key is not found by another. -/
theorem find?_modifyOrPush_of_ne {as : List Attribute} (has : ∀ a ∈ as, a.Regular)
    (hf : Attribute.SetsValue f) {new : Attribute} (hnew : new.Regular) (key : Key)
    (htest : key.test new) {other : Key} (hne : other ≠ key) :
    (FirstMatch.modifyOrPush key.test f (f new) as).find? other.test = as.find? other.test := by
  refine FirstMatch.find?_modifyOrPush_of_disjoint (fun a ha hkey => ?_) ?_
  · rw [hf.test_eq]
    exact ⟨(has a ha).test_eq_false hne hkey, (has a ha).test_eq_false hne hkey⟩
  · rw [hf.test_eq]
    exact hnew.test_eq_false hne htest

theorem local_alter (hf : Attribute.SetsValue f) (name : String) :
    Local (.plain name) (·.alter "" name f) where
  name_eq _ := rfl
  namespaceUri_eq _ := rfl
  children_eq _ := rfl
  regular _ he := FirstMatch.forall_mem_modifyOrPush (fun _ => hf.regular)
    (hf.regular (Attribute.regular_bare name)) he
  read?_of_ne _ he _ hne := find?_modifyOrPush_of_ne he hf (Attribute.regular_bare name)
    (.plain name) (Attribute.isNamed_iff.2 rfl) hne

theorem local_erase (name : String) : Local (.plain name) (·.erase "" name) where
  name_eq _ := rfl
  namespaceUri_eq _ := rfl
  children_eq _ := rfl
  regular e he a ha := he a (List.mem_filter.1 ha).1
  read?_of_ne e he other hne := by
    show (e.attributes.filter _).find? other.test = e.attributes.find? other.test
    rw [List.find?_filter, ← List.head?_filter, ← List.head?_filter]
    refine congrArg List.head? (List.filter_congr fun a ha => ?_)
    cases hother : other.test a with
    | false => simp
    | true =>
      have hnot := (he a ha).test_eq_false hne.symm hother
      rw [Key.test] at hnot
      simp [hnot]

/-- Where attributes are regular, an edit by id never falls back on the name. -/
theorem alterAndroid_of_regular {e : Element} (he : e.toTag.Regular) {name : String} {id : UInt32}
    (hname : Platform.attributeId? name = some id) (f : Attribute → Attribute) :
    e.alterAndroid name id f =
      { e with
        attributes :=
          FirstMatch.modifyOrPush (·.hasId id) f (f (.android name id)) e.attributes } := by
  have hchange : ∀ a : Attribute, a.hasId id → f { a with resourceId := some id } = f a := by
    intro a ha
    rw [← eq_of_beq ha]
  cases hfind : e.android? id with
  | some a =>
    rw [alterAndroid_of_some e hfind, FirstMatch.modifyOrPush_of_find?_some hfind,
      FirstMatch.modify_congr hchange]
  | none =>
    -- A regular attribute of this name would have the id.
    have hnamed : e.attributes.find? (·.isNamed androidUri name) = none := by
      refine List.find?_eq_none.2 fun a ha hnamed => ?_
      exact List.find?_eq_none.1 hfind a ha ((he a ha).hasId_of_isNamed hname hnamed)
    rw [alterAndroid_of_none e hfind, FirstMatch.modifyOrPush_of_find?_none hfind,
      FirstMatch.modifyOrPush_of_find?_none hnamed]

theorem local_alterAndroid (hf : Attribute.SetsValue f) {name : String} {id : UInt32}
    (hname : Platform.attributeId? name = some id) :
    Local (.platform id) (·.alterAndroid name id f) where
  name_eq _ := rfl
  namespaceUri_eq _ := rfl
  children_eq _ := rfl
  regular e he := by
    rw [alterAndroid_of_regular he hname f]
    exact FirstMatch.forall_mem_modifyOrPush (fun _ => hf.regular)
      (hf.regular (Attribute.regular_android hname)) he
  read?_of_ne e he other hne := by
    rw [alterAndroid_of_regular he hname f]
    exact find?_modifyOrPush_of_ne he hf (Attribute.regular_android hname) (.platform id)
      (beq_self_eq_true (some id)) hne

/-! ## Children -/

/-- A change of a child element is a change among the child elements alone. -/
theorem childElements_alterChild (e : Element) (p : Element → Bool) (new : Element)
    (g : Element → Element) :
    (e.alterChild p new g).childElements = FirstMatch.modifyOrPush p g (g new) e.childElements := by
  show (FirstMatch.modifyOrPush _ _ _ e.children).filterMap Node.element? =
    FirstMatch.modifyOrPush p g (g new) (e.children.filterMap Node.element?)
  induction e.children with
  | nil => rfl
  | cons n ns ih =>
    cases n with
    | text s => exact ih
    | element tag children =>
      by_cases hp : p ⟨tag, children⟩
      · have hnode : onNode p (.element tag children) := hp
        rw [FirstMatch.modifyOrPush, if_pos hnode]
        exact (if_pos hp).symm
      · have hnode : ¬ onNode p (.element tag children) := hp
        rw [FirstMatch.modifyOrPush, if_neg hnode]
        exact (congrArg (_ :: ·) ih).trans (if_neg hp).symm

variable {g : Element → Element} {root : Element} {name : String}

/-- A reader who minds the namespace finds the same when the first child of the name has none. -/
theorem childNamed?_eq_childCalled?
    (hfirst : ∀ e, root.childCalled? name = some e → e.namespaceUri = "") :
    root.childNamed? "" name = root.childCalled? name := by
  refine FirstMatch.find?_eq_of_first ?_ ?_
  · exact fun e he => isCalled_iff.2 (isNamed_iff.1 he).1
  · intro e he
    have hcalled := List.find?_some he
    exact isNamed_iff.2 ⟨isCalled_iff.1 hcalled, hfirst e he⟩

/-- The first child of a name is the one that was changed, or made, when it has no namespace. -/
theorem childCalled?_alterChildNamed (hname : ∀ e, (g e).name = e.name)
    (hfirst : ∀ e, root.childCalled? name = some e → e.namespaceUri = "") :
    (root.alterChildNamed "" name g).childCalled? name =
      some (g ((root.childCalled? name).getD { namespaceUri := "", name })) := by
  rw [← childNamed?_eq_childCalled? hfirst, childCalled?, alterChildNamed, childElements_alterChild]
  refine FirstMatch.find?_modifyOrPush_self ?_ ?_ ?_
  · intro e he
    have hcalled := List.find?_some he
    exact isNamed_iff.2 ⟨isCalled_iff.1 hcalled, hfirst e he⟩
  · intro e he
    have hnamed := List.find?_some he
    exact isCalled_iff.2 ((hname e).trans (isNamed_iff.1 hnamed).1)
  · exact isCalled_iff.2 (hname _)

/-- The first child of a name is the one that was there, when it has a namespace. -/
theorem childCalled?_alterChildNamed_of_foreign {e : Element} (h : root.childCalled? name = some e)
    (huri : e.namespaceUri ≠ "") : (root.alterChildNamed "" name g).childCalled? name = some e := by
  rw [childCalled?, alterChildNamed, childElements_alterChild]
  refine FirstMatch.find?_modifyOrPush_of_first ?_ h ?_
  · exact fun e he => isCalled_iff.2 (isNamed_iff.1 he).1
  · exact fun hnamed => huri (isNamed_iff.1 hnamed).2

/-- What is read off the first child of a name stays when it has nothing to do with the change. -/
theorem bind_childCalled?_alterChildNamed {β : Type} {other : String} {h : Element → Option β}
    (hname : ∀ e, (g e).name = e.name)
    (hread : other = name → (∀ e ∈ root.childElements, h (g e) = h e) ∧
      h (g { namespaceUri := "", name }) = none) :
    ((root.alterChildNamed "" name g).childCalled? other).bind h =
      (root.childCalled? other).bind h := by
  rw [childCalled?, alterChildNamed, childElements_alterChild]
  refine FirstMatch.bind_find?_modifyOrPush ?_ ?_
  · intro e he hnamed
    rw [isCalled, isCalled, hname]
    refine ⟨rfl, fun hother => ?_⟩
    exact (hread ((isCalled_iff.1 hother).symm.trans (isNamed_iff.1 hnamed).1)).1 e he
  · intro hother
    exact (hread ((isCalled_iff.1 hother).symm.trans (hname _))).2

end Element

end AppBundle.Xml
