import AppBundle.Proofs.Resource.Table
import Mathlib.Data.List.Nodup

/-!
# Lookups by id and by name

The entries of a table stand in places: one in a type, the type in a package
(`Table.places`).  The flat view, the set of ids and the two lookups each walk the
places in their own way.

Where the numbers of packages, of the types in each package and of the entries in
each type are all different (`Table.Distinct`), a place is known by its numbers.  Where
the numbers are in range as well (`Table.InRange`), they make an id.  Then the four
agree (`Table.lookups_agree`).  An id leads to the one entry that the flat view lists
under it.  There are as many ids as entries.  A pair of names leads to the id of the
first place with these names, and on to the entry there.  Names may repeat.
-/

namespace AppBundle.Resource

/-! ## Places -/

/-- An entry, with the type and the package that hold it. -/
structure Place where
  /-- The package. -/
  package : Package
  /-- The type. -/
  type : EntryType
  /-- The entry. -/
  entry : Entry

namespace Place

/-- The id has the numbers of the place. -/
def IsAt (s : Place) (i : Id) : Prop :=
  i.package = s.package.id ∧ i.type = s.type.id ∧ i.entry = s.entry.id

/-- The entry and its type have these names. -/
def IsNamed (s : Place) (type entry : String) : Prop := s.type.name = type ∧ s.entry.name = entry

instance (s : Place) (type entry : String) : Decidable (s.IsNamed type entry) :=
  inferInstanceAs (Decidable (_ ∧ _))

/-- The id of the place, where its numbers are in range. -/
def id? (s : Place) : Option Id := (Id.compose? s.package.id s.type.id s.entry.id).toOption

theorem id?_eq_some_iff {s : Place} {i : Id} : s.id? = some i ↔ s.IsAt i := by
  rw [IsAt, ← Id.compose?_eq_ok_iff, id?]
  cases Id.compose? s.package.id s.type.id s.entry.id <;> simp [Except.toOption]

end Place

namespace Table

/-- The places of a table, in its order. -/
def places (t : Table) : List Place :=
  t.packages.flatMap fun package => package.types.flatMap fun type =>
    type.entries.map fun entry => { package, type, entry }

/-- No two packages have the same number, nor have two types of one package or two
entries of one type. -/
structure Distinct (t : Table) : Prop where
  /-- The numbers of the packages are all different. -/
  packages : t.packageIds.Nodup
  /-- The numbers of the types in a package are all different. -/
  types : ∀ p ∈ t.packages, (p.types.map (·.id)).Nodup
  /-- The numbers of the entries in a type are all different. -/
  entries : ∀ p ∈ t.packages, ∀ type ∈ p.types, (type.entries.map (·.id)).Nodup

/-- All numbers are ones that an id can have. -/
structure InRange (t : Table) : Prop where
  /-- The numbers of packages. -/
  packages : ∀ p ∈ t.packages, 1 ≤ p.id.toNat ∧ p.id.toNat ≤ 0xff
  /-- The numbers of types. -/
  types : ∀ p ∈ t.packages, ∀ type ∈ p.types, 1 ≤ type.id.toNat ∧ type.id.toNat ≤ 0xff
  /-- The numbers of entries. -/
  entries : ∀ p ∈ t.packages, ∀ type ∈ p.types, ∀ e ∈ type.entries, e.id.toNat ≤ 0xffff

variable {t : Table} {i : Id} {e : Entry} {s : Place} {type entry : String}

theorem mem_places : s ∈ t.places ↔
    s.package ∈ t.packages ∧ s.type ∈ s.package.types ∧ s.entry ∈ s.type.entries := by
  simp only [places, List.mem_flatMap, List.mem_map]
  constructor
  · rintro ⟨package, hpackage, type, htype, entry, hentry, rfl⟩
    exact ⟨hpackage, htype, hentry⟩
  · rintro ⟨hpackage, htype, hentry⟩
    exact ⟨s.package, hpackage, s.type, htype, s.entry, hentry, rfl⟩

/-- The flat view lists the places. -/
theorem resources_eq : t.resources = t.places.map fun s => ⟨s.id?, s.type, s.entry⟩ := by
  simp only [resources, places, List.map_flatMap, List.map_map]
  rfl

/-- Numbers in range make an id. -/
theorem InRange.exists_isAt (h : t.InRange) (hs : s ∈ t.places) : ∃ i, s.IsAt i := by
  obtain ⟨hpackage, htype, hentry⟩ := mem_places.1 hs
  obtain ⟨i, hi⟩ := Id.compose?_ok_iff.2
    ⟨h.packages _ hpackage, h.types _ hpackage _ htype, h.entries _ hpackage _ htype _ hentry⟩
  exact ⟨i, Id.compose?_eq_ok_iff.1 hi⟩

/-! ## By id -/

/-- An id leads to the entry of the place that has its numbers. -/
theorem Distinct.entry?_eq_some_iff (h : t.Distinct) :
    t.entry? i = some e ↔ ∃ s ∈ t.places, s.IsAt i ∧ s.entry = e := by
  constructor
  · intro hentry
    obtain ⟨package, hpackage, type, htype, hp, ht⟩ := mem_of_entry? hentry
    rw [entry?_eq h.packages hpackage (h.types _ hpackage) htype hp ht] at hentry
    have hmem := List.mem_of_find?_eq_some hentry
    have hid := List.find?_some hentry
    rw [decide_eq_true_eq] at hid
    exact ⟨⟨package, type, e⟩, mem_places.2 ⟨hpackage, htype, hmem⟩, ⟨hp, ht, hid.symm⟩, rfl⟩
  · rintro ⟨s, hs, ⟨hp, ht, hid⟩, rfl⟩
    obtain ⟨hpackage, htype, hentry⟩ := mem_places.1 hs
    rw [entry?_eq h.packages hpackage (h.types _ hpackage) htype hp ht, hid, ← List.head?_filter,
      filter_key_eq (h.entries _ hpackage _ htype) hentry, List.head?_cons]

/-! ## All ids -/

/-- No id is that of two places. -/
theorem Distinct.apart (h : t.Distinct) :
    t.places.Pairwise fun s s' => ∀ i, s.IsAt i → ¬ s'.IsAt i := by
  rw [places, List.pairwise_flatMap]
  refine ⟨fun p hp => ?_, (List.pairwise_map.1 h.packages).imp ?_⟩
  · rw [List.pairwise_flatMap]
    refine ⟨fun type htype => ?_, (List.pairwise_map.1 (h.types p hp)).imp ?_⟩
    · refine List.pairwise_map.2 ((List.pairwise_map.1 (h.entries p hp type htype)).imp ?_)
      intro e e' hne i hi hi'
      exact hne (hi.2.2.symm.trans hi'.2.2)
    · intro type type' hne s hs s' hs' i hi hi'
      obtain ⟨e, -, rfl⟩ := List.mem_map.1 hs
      obtain ⟨e', -, rfl⟩ := List.mem_map.1 hs'
      exact hne (hi.2.1.symm.trans hi'.2.1)
  · intro p p' hne s hs s' hs' i hi hi'
    obtain ⟨type, -, hs⟩ := List.mem_flatMap.1 hs
    obtain ⟨type', -, hs'⟩ := List.mem_flatMap.1 hs'
    obtain ⟨e, -, rfl⟩ := List.mem_map.1 hs
    obtain ⟨e', -, rfl⟩ := List.mem_map.1 hs'
    exact hne (hi.1.symm.trans hi'.1)

theorem filterMap_resources : t.resources.filterMap (·.id) = t.places.filterMap (·.id?) := by
  rw [resources_eq, List.filterMap_map]
  rfl

/-- There are as many ids as entries. -/
theorem length_ids (hd : t.Distinct) (hr : t.InRange) : t.ids.toList.length = t.places.length := by
  have hnodup : (t.places.filterMap (·.id?)).Nodup := by
    refine List.pairwise_filterMap.2 (hd.apart.imp ?_)
    rintro s s' happart i hi _ hi' rfl
    exact happart i (Place.id?_eq_some_iff.1 hi) (Place.id?_eq_some_iff.1 hi')
  have hall : ∀ s ∈ t.places, s.id?.isSome := by
    intro s hs
    obtain ⟨i, hi⟩ := hr.exists_isAt hs
    rw [Place.id?_eq_some_iff.2 hi, Option.isSome_some]
  rw [ids, filterMap_resources, OrderedSet.length_ofList hnodup,
    List.filterMap_length_eq_length.2 hall]

/-! ## By name -/

/-- A pair of names leads to the id of the first place with these names. -/
theorem findId?_eq : t.findId? type entry =
    (t.places.find? fun s => s.IsNamed type entry).bind (·.id?) := by
  have hnamed : ∀ s : Place,
      (s.type.name == type && s.entry.name == entry) = decide (s.IsNamed type entry) := by
    intro s
    rw [Bool.eq_iff_iff, Bool.and_eq_true, beq_iff_eq, beq_iff_eq, decide_eq_true_iff]
    rfl
  rw [findId?, resources_eq, List.find?_map, Option.bind_map]
  simp only [Function.comp_def, hnamed]

/-- The lookups agree where numbers do not repeat and are in range.  An id leads to the
entry that is listed under it, if there is one.  There are as many ids as entries.  A
pair of names leads to nothing if no entry has them, and else to the id of the first one
that has, and by that id to this entry. -/
theorem lookups_agree (hd : t.Distinct) (hr : t.InRange) :
    (∀ i e, t.entry? i = some e ↔ ∃ type, ⟨some i, type, e⟩ ∈ t.resources) ∧
      t.ids.toList.length = t.places.length ∧
      ∀ type entry,
        ((∀ s ∈ t.places, ¬ s.IsNamed type entry) → t.findId? type entry = none) ∧
        ∀ before s after, t.places = before ++ s :: after →
          (∀ s' ∈ before, ¬ s'.IsNamed type entry) → s.IsNamed type entry →
            ∃ i, t.findId? type entry = some i ∧ s.IsAt i ∧ t.entry? i = some s.entry := by
  refine ⟨fun i e => ?_, length_ids hd hr, fun type entry => ⟨fun hnone => ?_, ?_⟩⟩
  · rw [hd.entry?_eq_some_iff, resources_eq]
    simp only [List.mem_map, Listing.mk.injEq, Place.id?_eq_some_iff]
    constructor
    · rintro ⟨s, hs, hat, rfl⟩
      exact ⟨s.type, s, hs, hat, rfl, rfl⟩
    · rintro ⟨_, s, hs, hat, -, rfl⟩
      exact ⟨s, hs, hat, rfl⟩
  · rw [findId?_eq, List.find?_eq_none.2 (by simpa using hnone)]
    rfl
  · intro before s after hplaces hbefore hnamed
    have hs : s ∈ t.places := by simp [hplaces]
    obtain ⟨i, hi⟩ := hr.exists_isAt hs
    have hfirst : (t.places.find? fun s => s.IsNamed type entry) = some s :=
      List.find?_eq_some_iff_append.2
        ⟨decide_eq_true hnamed, before, after, hplaces, by simpa using hbefore⟩
    refine ⟨i, ?_, hi, hd.entry?_eq_some_iff.2 ⟨s, hs, hi, rfl⟩⟩
    rw [findId?_eq, hfirst, Option.bind_some, Place.id?_eq_some_iff.2 hi]

/-- Types of one name, in one package and in two, and entries of one name in them. -/
def stringsTable : Table := ⟨[
  { id := 0x7f, name := "app", types := [
      { id := 1, name := "string", entries := [⟨0, "title", []⟩, ⟨4, "label", []⟩] },
      { id := 3, name := "string", entries := [⟨0, "hint", []⟩] }] },
  { id := 2, name := "lib", types := [
      { id := 1, name := "string", entries := [⟨7, "hint", []⟩, ⟨9, "label", []⟩] }] }]⟩

theorem lookups_agree_stringsTable :
    stringsTable.Distinct ∧ stringsTable.InRange ∧ stringsTable.ids.toList.length = 5 ∧
      stringsTable.findId? "layout" "hint" = none ∧
      ∃ i, stringsTable.findId? "string" "hint" = some i ∧
        (i.package = 0x7f ∧ i.type = 3 ∧ i.entry = 0) ∧
        stringsTable.entry? i = some ⟨0, "hint", []⟩ ∧
        ∃ type, ⟨some i, type, ⟨0, "hint", []⟩⟩ ∈ stringsTable.resources := by
  have hd : stringsTable.Distinct := ⟨by decide, by decide, by decide⟩
  have hr : stringsTable.InRange := ⟨by decide, by decide, by decide⟩
  obtain ⟨hlisted, hcount, hnames⟩ := lookups_agree hd hr
  have hsplit : stringsTable.places = stringsTable.places.take 2 ++
      ⟨stringsTable.packages[0], stringsTable.packages[0].types[1], ⟨0, "hint", []⟩⟩ ::
        stringsTable.places.drop 3 := rfl
  obtain ⟨i, hfound, hat, hentry⟩ :=
    (hnames "string" "hint").2 _ _ _ hsplit (by decide) (by decide)
  exact ⟨hd, hr, hcount, (hnames "layout" "hint").1 (by decide), i, hfound, hat, hentry,
    (hlisted _ _).1 hentry⟩

end Table

end AppBundle.Resource
