import AppBundle.Proofs.Ordered
import AppBundle.Resource.Table

/-!
# Ids and what they lead to

The parts of an id are the numbers it was made of (`Id.compose?_eq_ok_iff`), and
the ids of a table are those of its entries (`Table.mem_ids`).  Where the numbers
of packages and of types are all different, an id leads into one type and the
first entry there with its number (`Table.entry?_eq`).
-/

namespace AppBundle.Resource

/-! ## Parts of an id -/

theorem Id.parts_of_compose? {package type entry : UInt32} {i : Id}
    (h : Id.compose? package type entry = .ok i) :
    i.package = package ∧ i.type = type ∧ i.entry = entry := by
  simp only [Id.compose?] at h
  split at h
  · rename_i hp
    split at h
    · rename_i ht
      split at h
      · rename_i he
        cases h
        refine ⟨?_, ?_, ?_⟩
        · apply UInt32.toNat_inj.1
          simp only [Id.package, pack, UInt32.toNat_div, UInt32.toNat_ofNat', UInt32.reduceToNat]
          omega
        · apply UInt32.toNat_inj.1
          simp only [Id.type, pack, UInt32.toNat_div, UInt32.toNat_mod, UInt32.toNat_ofNat',
            UInt32.reduceToNat]
          omega
        · apply UInt32.toNat_inj.1
          simp only [Id.entry, pack, UInt32.toNat_mod, UInt32.toNat_ofNat', UInt32.reduceToNat]
          omega
      · cases h
    · cases h
  · cases h

/-- Numbers that are in range make an id. -/
theorem Id.compose?_ok_iff {package type entry : UInt32} :
    (∃ i, Id.compose? package type entry = .ok i) ↔
      (1 ≤ package.toNat ∧ package.toNat ≤ 0xff) ∧ (1 ≤ type.toNat ∧ type.toNat ≤ 0xff) ∧
        entry.toNat ≤ 0xffff := by
  simp only [Id.compose?]
  split
  · rename_i hp
    split
    · rename_i ht
      split
      · rename_i he
        exact ⟨fun _ => ⟨hp, ht, he⟩, fun _ => ⟨_, rfl⟩⟩
      · rename_i he
        exact ⟨by rintro ⟨_, ⟨⟩⟩, fun h => absurd h.2.2 he⟩
    · rename_i ht
      exact ⟨by rintro ⟨_, ⟨⟩⟩, fun h => absurd h.2.1 ht⟩
  · rename_i hp
    exact ⟨by rintro ⟨_, ⟨⟩⟩, fun h => absurd h.1 hp⟩

/-- The word of an id is the sum of its parts, each at its place. -/
theorem Id.toNat_word (i : Id) :
    i.word.toNat = 0x1000000 * i.package.toNat + (0x10000 * i.type.toNat + i.entry.toNat) ∧
      i.package.toNat < 0x100 ∧ i.type.toNat < 0x100 ∧ i.entry.toNat < 0x10000 := by
  have hword := i.word.toNat_lt
  simp only [Id.package, Id.type, Id.entry, UInt32.toNat_div, UInt32.toNat_mod,
    UInt32.reduceToNat]
  omega

/-- An id is known by its parts. -/
theorem Id.ext_parts {i j : Id} (hpackage : i.package = j.package) (htype : i.type = j.type)
    (hentry : i.entry = j.entry) : i = j := by
  apply Id.ext
  apply UInt32.toNat_inj.1
  rw [i.toNat_word.1, j.toNat_word.1, hpackage, htype, hentry]

/-- An id is made of its parts. -/
theorem Id.compose?_parts (i : Id) : compose? i.package i.type i.entry = .ok i := by
  obtain ⟨hword, hpackage, htype, hentry⟩ := i.toNat_word
  have hpackagePos := i.package_pos
  have htypePos := i.type_pos
  have hrange : (1 ≤ i.package.toNat ∧ i.package.toNat ≤ 0xff) ∧
      (1 ≤ i.type.toNat ∧ i.type.toNat ≤ 0xff) ∧ i.entry.toNat ≤ 0xffff := by omega
  obtain ⟨j, hmade⟩ := compose?_ok_iff.2 hrange
  obtain ⟨hp, ht, he⟩ := parts_of_compose? hmade
  rw [hmade, ext_parts hp ht he]

theorem Id.compose?_eq_ok_iff {package type entry : UInt32} {i : Id} :
    compose? package type entry = .ok i ↔
      i.package = package ∧ i.type = type ∧ i.entry = entry := by
  constructor
  · exact parts_of_compose?
  · rintro ⟨rfl, rfl, rfl⟩
    exact compose?_parts i

namespace Table

variable {t : Table} {i : Id}

/-- The ids of a table are those of its entries. -/
theorem mem_ids : i ∈ t.ids ↔ ∃ package ∈ t.packages, ∃ type ∈ package.types,
    ∃ entry ∈ type.entries, Id.compose? package.id type.id entry.id = .ok i := by
  have hok : ∀ x : Except BundleError Id, x.toOption = some i ↔ x = .ok i := by
    intro x
    cases x with
    | error e => simp [Except.toOption]
    | ok j => simp [Except.toOption]
  rw [ids, OrderedSet.mem_ofList, List.mem_filterMap]
  constructor
  · rintro ⟨listing, hlisting, hid⟩
    obtain ⟨package, hpackage, hlisting⟩ := List.mem_flatMap.1 hlisting
    obtain ⟨type, htype, hlisting⟩ := List.mem_flatMap.1 hlisting
    obtain ⟨entry, hentry, rfl⟩ := List.mem_map.1 hlisting
    exact ⟨package, hpackage, type, htype, entry, hentry, (hok _).1 hid⟩
  · rintro ⟨package, hpackage, type, htype, entry, hentry, hid⟩
    refine ⟨_, List.mem_flatMap.2 ⟨package, hpackage, List.mem_flatMap.2 ⟨type, htype,
      List.mem_map.2 ⟨entry, hentry, rfl⟩⟩⟩, (hok _).2 hid⟩

/-! ## Looking up -/

/-- Where the keys of a list are all different, only one member has a given key. -/
theorem filter_key_eq {α : Type} {f : α → UInt32} {l : List α} (h : (l.map f).Nodup) {a : α}
    (ha : a ∈ l) : l.filter (f · = f a) = [a] := by
  induction l with
  | nil => cases ha
  | cons b bs ih =>
    obtain ⟨hb, hbs⟩ := List.nodup_cons.1 h
    rcases List.mem_cons.1 ha with rfl | ha
    · rw [List.filter_cons_of_pos (by simp), List.filter_eq_nil_iff.2]
      intro c hc heq
      exact hb (List.mem_map.2 ⟨c, hc, by simpa using heq⟩)
    · have hne : f b ≠ f a := fun heq => hb (List.mem_map.2 ⟨a, ha, heq.symm⟩)
      rw [List.filter_cons_of_neg (by simpa using hne), ih hbs ha]

/-- An id leads to the first entry with its number in the type that it names. -/
theorem entry?_eq (hpackages : t.packageIds.Nodup) {package : Package}
    (hpackage : package ∈ t.packages) (htypes : (package.types.map (·.id)).Nodup)
    {type : EntryType} (htype : type ∈ package.types) (hp : i.package = package.id)
    (ht : i.type = type.id) : t.entry? i = type.entries.find? (·.id = i.entry) := by
  unfold entry?
  simp only [hp, ht, filter_key_eq hpackages hpackage, filter_key_eq htypes htype,
    List.flatMap_cons, List.flatMap_nil, List.append_nil]

/-- An id that names another package passes a package over. -/
theorem entry?_cons_of_ne {package : Package} {packages : List Package}
    (h : i.package ≠ package.id) : entry? ⟨package :: packages⟩ i = entry? ⟨packages⟩ i := by
  unfold entry?
  simp only
  rw [List.filter_cons_of_neg (by simpa using Ne.symm h)]

/-- What an id leads to stands in a type that it names. -/
theorem mem_of_entry? {entry : Entry} (h : t.entry? i = some entry) :
    ∃ package ∈ t.packages, ∃ type ∈ package.types, i.package = package.id ∧ i.type = type.id := by
  have hentry := List.mem_of_find?_eq_some h
  obtain ⟨type, htype, -⟩ := List.mem_flatMap.1 hentry
  obtain ⟨htype, ht⟩ := List.mem_filter.1 htype
  obtain ⟨package, hpackage, htype⟩ := List.mem_flatMap.1 htype
  obtain ⟨hpackage, hp⟩ := List.mem_filter.1 hpackage
  exact ⟨package, hpackage, type, htype, (of_decide_eq_true hp).symm, (of_decide_eq_true ht).symm⟩

end Table

end AppBundle.Resource
