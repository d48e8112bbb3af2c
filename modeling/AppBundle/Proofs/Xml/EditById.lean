import AppBundle.Proofs.Xml.Lookup

/-!
# Edits by id

An edit by id changes the first attribute that has the id.  Where none has it,
the edit falls back on the name, and gives the id to the attribute that it finds
there, or makes.  Either way one attribute is changed, the first that passes one
test (`Element.alterAndroid_eq_modifyOrPush`), and it has the id afterwards.  So
the same edit finds the same attribute again (`Element.alterAndroid_alterAndroid`).

A document from another tool may call an attribute by one name and give it the
id of another.  If no attribute has the id of an edit, and its name leads to the
attribute that is read by another id, the edit takes that one over
(`Element.TakesOver`): it keeps its name and its value, but the other id leads
to the next attribute that has it, if there is one.  No other edit is seen by
readers of another id (`Element.android?_alterAndroid_exact`).
-/

namespace AppBundle.Xml

/-! ## Changes that give an id -/

/-- A change that is made after an attribute got an id. -/
def Attribute.identify (id : UInt32) (f : Attribute → Attribute) (a : Attribute) : Attribute :=
  f { a with resourceId := some id }

theorem Attribute.hasId_eq_false_of_ne {a : Attribute} {id other : UInt32} (h : a.hasId id)
    (hne : other ≠ id) : a.hasId other = false := by
  rw [hasId, eq_of_beq h, beq_eq_false_iff_ne]
  exact fun heq => hne (Option.some.inj heq).symm

/-- A change may leave the value as it is. -/
theorem Attribute.setsValue_self : SetsValue fun a => a where
  fullName_eq _ := rfl
  resourceId_eq _ := rfl

namespace Attribute.SetsValue

variable {f g h : Attribute → Attribute} (hf : SetsValue f) (id : UInt32) (a : Attribute)

include hf

theorem hasId_identify : (a.identify id f).hasId id := beq_iff_eq.2 (hf.resourceId_eq _)

/-- An attribute gets its id once. -/
theorem identify_identify (hg : ∀ a, g (f a) = h a) :
    (a.identify id f).identify id g = a.identify id h := by
  have hid : { a.identify id f with resourceId := some id } = a.identify id f := by
    rw [← eq_of_beq (hf.hasId_identify id a)]
  rw [identify, hid]
  exact hg _

end Attribute.SetsValue

namespace Element

/-! ## The attribute that is edited -/

/-- An edit by id looks for one test: the id, or the name where no attribute has the id. -/
theorem alterAndroid_eq_modifyOrPush (e : Element) (name : String) (id : UInt32) :
    ∃ p : Attribute → Bool,
      e.attributes.find? p = (e.android? id).or (e.attribute? androidUri name) ∧
      (∀ a ∈ e.attributes, a.hasId id → p a) ∧
      ∀ f, e.alterAndroid name id f =
        { e with
          attributes := FirstMatch.modifyOrPush p (·.identify id f)
            ((Attribute.android name id).identify id f) e.attributes } := by
  cases hfind : e.android? id with
  | some a =>
    refine ⟨(·.hasId id), hfind, fun _ _ ha => ha, fun f => ?_⟩
    rw [alterAndroid_of_some e hfind, FirstMatch.modifyOrPush_of_find?_some hfind]
    rfl
  | none =>
    refine ⟨(·.isNamed androidUri name), Option.none_or.symm, fun a ha hid => ?_,
      alterAndroid_of_none e hfind name⟩
    exact absurd hid (List.find?_eq_none.1 hfind a ha)

variable {e : Element} {f g h : Attribute → Attribute} {name : String} {id other : UInt32}

/-- An edit by id finds the attribute that the same edit changed or made before. -/
theorem alterAndroid_alterAndroid (hf : Attribute.SetsValue f) (hg : ∀ a, g (f a) = h a)
    (e : Element) (name : String) (id : UInt32) :
    (e.alterAndroid name id f).alterAndroid name id g = e.alterAndroid name id h := by
  obtain ⟨p, -, hid, hedit⟩ := alterAndroid_eq_modifyOrPush e name id
  have hagain := e.android?_alterAndroid hf name id
  have hchange (a : Attribute) : (a.identify id f).hasId id ∧
      (a.identify id f).identify id g = a.identify id h :=
    ⟨hf.hasId_identify id a, hf.identify_identify id a hg⟩
  rw [alterAndroid_of_some _ hagain, hedit h]
  refine congrArg (fun as => { e with attributes := as }) ?_
  rw [← FirstMatch.modifyOrPush_of_find?_some hagain, hedit f]
  exact FirstMatch.modifyOrPush_modifyOrPush hid (fun a _ _ => hchange a) (hchange _)
    (Attribute.android name id)

/-! ## Readers of another id -/

/-- An edit by id takes over the attribute that is read by another id: no attribute
has the id of the edit, and the first one of its name is the one that is read. -/
def TakesOver (e : Element) (name : String) (id other : UInt32) : Prop :=
  e.android? id = none ∧ ∃ a, e.attribute? androidUri name = some a ∧ e.android? other = some a

theorem hasId_of_android? {a : Attribute} (h : e.android? id = some a) : a.hasId id := by
  have hid := List.find?_some (show e.attributes.find? (·.hasId id) = some a from h)
  exact hid

theorem isNamed_of_attribute? {uri : String} {a : Attribute} (h : e.attribute? uri name = some a) :
    a.isNamed uri name := by
  have hnamed := List.find?_some (show e.attributes.find? (·.isNamed uri name) = some a from h)
  exact hnamed

/-- What was changed, or made, has no other id. -/
theorem hasId_identify_of_ne (hf : Attribute.SetsValue f) (hne : other ≠ id) (a : Attribute) :
    ¬ (a.identify id f).hasId other := by
  rw [Attribute.hasId_eq_false_of_ne (hf.hasId_identify id a) hne]
  exact Bool.false_ne_true

/-- A reader of another id sees an edit only when it takes over what was read. -/
theorem android?_alterAndroid_of_not_takesOver (hf : Attribute.SetsValue f) (hne : other ≠ id)
    (h : ¬ e.TakesOver name id other) :
    (e.alterAndroid name id f).android? other = e.android? other := by
  obtain ⟨p, hfirst, -, hedit⟩ := alterAndroid_eq_modifyOrPush e name id
  have hchange := hasId_identify_of_ne hf hne
  rw [hedit]
  refine FirstMatch.find?_modifyOrPush_of_apart (fun a ha => ⟨fun hother => ?_, hchange a⟩)
    (hchange _)
  rw [hfirst] at ha
  rcases Option.or_eq_some_iff.1 ha with hid | ⟨hnone, hnamed⟩
  · have hfalse := Attribute.hasId_eq_false_of_ne (hasId_of_android? hid) hne
    exact Bool.false_ne_true (hfalse.symm.trans (hasId_of_android? hother))
  · exact h ⟨hnone, a, hnamed, hother⟩

/-- A reader of the id whose attribute is taken over finds the next one that has it. -/
theorem android?_alterAndroid_of_takesOver (hf : Attribute.SetsValue f) (hne : other ≠ id)
    (h : e.TakesOver name id other) :
    (e.alterAndroid name id f).android? other = (e.attributes.filter (·.hasId other))[1]? := by
  obtain ⟨hnone, a, hnamed, hother⟩ := h
  obtain ⟨p, hfirst, -, hedit⟩ := alterAndroid_eq_modifyOrPush e name id
  rw [hnone, hnamed, Option.none_or] at hfirst
  rw [hedit]
  exact FirstMatch.find?_modifyOrPush_of_lost hfirst hother (hasId_identify_of_ne hf hne a)

/-- Where no attribute of the name has another id, a reader of that id does not see the edit. -/
theorem android?_alterAndroid_of_apart (hf : Attribute.SetsValue f) (hne : other ≠ id)
    (hapart : ∀ a ∈ e.attributes, a.isNamed androidUri name → a.hasId other = false) :
    (e.alterAndroid name id f).android? other = e.android? other := by
  refine android?_alterAndroid_of_not_takesOver hf hne ?_
  rintro ⟨-, a, hnamed, hother⟩
  have hfalse := hapart a (List.mem_of_find?_eq_some hnamed) (isNamed_of_attribute? hnamed)
  exact Bool.false_ne_true (hfalse.symm.trans (hasId_of_android? hother))

/-- After an edit by id the attribute that was edited is found by its id.  Another id
leads to what it led to before, unless the edit takes that attribute over: then the
attribute is what is found by the id, with all else that it had, and the other id
leads to the next one that has it. -/
theorem android?_alterAndroid_exact (hf : Attribute.SetsValue f) (e : Element) (name : String)
    (hne : other ≠ id) :
    (e.alterAndroid name id f).android? id = some (f (.identified e.attributes name id)) ∧
      (¬ e.TakesOver name id other →
        (e.alterAndroid name id f).android? other = e.android? other) ∧
      (e.TakesOver name id other →
        (e.alterAndroid name id f).android? id = (e.android? other).map (·.identify id f) ∧
        (e.alterAndroid name id f).android? other =
          (e.attributes.filter (·.hasId other))[1]?) := by
  have hedited := e.android?_alterAndroid hf name id
  refine ⟨hedited, android?_alterAndroid_of_not_takesOver hf hne, fun h => ?_⟩
  refine ⟨?_, android?_alterAndroid_of_takesOver hf hne h⟩
  obtain ⟨hnone, a, hnamed, hother⟩ := h
  rw [android?] at hnone
  rw [attribute?] at hnamed
  rw [hedited, hother, Attribute.identified, hnone, hnamed]
  rfl

/-- Meta-data with two attributes that have the id of the name, the first of them
called `value`. -/
def misnamedMetaData : Element where
  name := "meta-data"
  attributes := [
    (Attribute.android "value" Platform.nameId).setText "first",
    (Attribute.android "name" Platform.nameId).setText "second"]

theorem android?_alterAndroid_exact_misnamedMetaData :
    Platform.nameId ≠ Platform.valueId ∧
      misnamedMetaData.TakesOver "value" Platform.valueId Platform.nameId ∧
      let edited := misnamedMetaData.alterAndroid "value" Platform.valueId fun a => a
      (edited.android? Platform.valueId).map (·.raw) = some "first" ∧
        (edited.android? Platform.nameId).map (·.raw) = some "second" := by
  have hne : Platform.nameId ≠ Platform.valueId := by decide
  have htakes : misnamedMetaData.TakesOver "value" Platform.valueId Platform.nameId :=
    ⟨rfl, _, rfl, rfl⟩
  obtain ⟨-, -, htaken⟩ :=
    android?_alterAndroid_exact Attribute.setsValue_self misnamedMetaData "value" hne
  obtain ⟨hedited, hnext⟩ := htaken htakes
  exact ⟨hne, htakes, (congrArg (Option.map (·.raw)) hedited).trans rfl,
    (congrArg (Option.map (·.raw)) hnext).trans rfl⟩

/-- An edit that only looks for a value, or makes one, hides the name of meta-data
whose name is called `value`. -/
theorem alterAndroid_hides :
    Platform.nameId ≠ Platform.valueId ∧
      ∃ e : Element, ∃ a, e.android? Platform.nameId = some a ∧
        (e.alterAndroid "value" Platform.valueId fun a => a).android? Platform.nameId = none :=
  ⟨by decide, { name := "meta-data", attributes := [.android "value" Platform.nameId] }, _, rfl,
    rfl⟩

end Element

end AppBundle.Xml
