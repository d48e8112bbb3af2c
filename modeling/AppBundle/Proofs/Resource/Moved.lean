import AppBundle.Proofs.Resource.Table
import AppBundle.Resource.Remap

/-!
# References follow their resources

A table and the references into it move by two separate functions, `Table.move?`
and `moveId`.  They go together: a moved id leads to the entry that the id led to
(`Table.entry?_move?`).

All packages of a moved table have one number, so a lookup there searches what
were several packages.  It may find an entry that the old lookup passed over.
That cannot happen where packages with different numbers hold different entries
(`Table.Unshared`): the entries with the numbers of the id then stand in the
packages that the id names, and searching all of them is searching these
(`Package.firstOf_filter`).
-/

namespace AppBundle.Resource

theorem checkPackageId_eq_ok_iff {id : UInt32} :
    checkPackageId id = .ok () ↔ 1 ≤ id.toNat ∧ id.toNat ≤ 0xff := by
  rw [checkPackageId]
  split
  · exact iff_of_true rfl ‹_›
  · exact iff_of_false nofun ‹_›

/-! ## Moved ids -/

section MovedIds

variable {old : List UInt32} {new : UInt32}

/-- The word of a resource in an old package gets the new number in its top byte. -/
theorem toNat_moveId (hnew : new.toNat ≤ 0xff) {word : UInt32} (h : word / 0x1000000 ∈ old) :
    (moveId old new word).toNat = new.toNat * 0x1000000 + word.toNat % 0x1000000 := by
  rw [moveId, if_pos h, UInt32.toNat_ofNat']
  omega

/-- The package of a moved word. -/
theorem moveId_div (hnew : new.toNat ≤ 0xff) (word : UInt32) : moveId old new word / 0x1000000 =
    if word / 0x1000000 ∈ old then new else word / 0x1000000 := by
  split
  · rename_i hold
    apply UInt32.toNat_inj.1
    rw [UInt32.toNat_div, toNat_moveId hnew hold]
    simp only [UInt32.reduceToNat]
    omega
  · rename_i hold
    rw [moveId, if_neg hold]

/-- Ids stay when the packages move to the number that they have. -/
theorem moveId_self (hold : ∀ q ∈ old, q = new) (word : UInt32) : moveId old new word = word := by
  rw [moveId]
  split
  · rename_i hmoves
    have hpackage := congrArg UInt32.toNat (hold _ hmoves)
    simp only [UInt32.toNat_div, UInt32.reduceToNat] at hpackage
    have hword := word.toNat_lt
    apply UInt32.toNat_inj.1
    rw [UInt32.toNat_ofNat']
    omega
  · rfl

/-- An id that moved away from the only package comes back with it, as no id that
stayed was in the new package. -/
theorem moveId_back {package : UInt32} (hold : ∀ q ∈ old, q = package) (hnew : new.toNat ≤ 0xff)
    {word : UInt32} (hfree : word / 0x1000000 ≠ new) :
    moveId (old.map fun _ => new) package (moveId old new word) = word := by
  by_cases hmoves : word / 0x1000000 ∈ old
  · have hpackage := congrArg UInt32.toNat (hold _ hmoves)
    simp only [UInt32.toNat_div, UInt32.reduceToNat] at hpackage
    have hword := word.toNat_lt
    have hback : moveId old new word / 0x1000000 ∈ old.map fun _ => new := by
      rw [moveId_div hnew, if_pos hmoves]
      exact List.mem_map.2 ⟨_, hmoves, rfl⟩
    apply UInt32.toNat_inj.1
    rw [toNat_moveId (by omega) hback, toNat_moveId hnew hmoves]
    omega
  · have hstays : word / 0x1000000 ∉ old.map fun _ => new := by
      intro hmem
      obtain ⟨_, -, hin⟩ := List.mem_map.1 hmem
      exact hfree hin.symm
    rw [moveId, moveId, if_neg hmoves, if_neg hstays]

/-- A moved id is an id, which differs from the old one in the package at most. -/
theorem Id.exists_moved (hnew : 1 ≤ new.toNat ∧ new.toNat ≤ 0xff) (i : Id) :
    ∃ i' : Id, i'.word = moveId old new i.word ∧
      i'.package = (if i.package ∈ old then new else i.package) ∧
      i'.type = i.type ∧ i'.entry = i.entry := by
  by_cases hold : i.package ∈ old
  · have hpackage : moveId old new i.word / 0x1000000 = _ := moveId_div hnew.2 i.word
    have hword := toNat_moveId hnew.2 hold
    have htype := i.type_pos
    generalize moveId old new i.word = word at hpackage hword
    refine ⟨⟨word, by omega, by omega⟩, rfl, hpackage, ?_, ?_⟩
    · apply UInt32.toNat_inj.1
      simp only [type, UInt32.toNat_div, UInt32.toNat_mod, UInt32.reduceToNat]
      omega
    · apply UInt32.toNat_inj.1
      simp only [entry, UInt32.toNat_mod, UInt32.reduceToNat]
      omega
  · exact ⟨i, (if_neg hold).symm, (if_neg hold).symm, rfl, rfl⟩

end MovedIds

/-! ## Searching packages -/

namespace Package

/-- The package has an entry with these numbers. -/
def Holds (package : Package) (type entry : UInt32) : Prop :=
  ∃ t ∈ package.types, t.id = type ∧ ∃ e ∈ t.entries, e.id = entry

/-- The first entry with these numbers in some packages. -/
def firstOf (packages : List Package) (type entry : UInt32) : Option Entry :=
  (((packages.flatMap (·.types)).filter (·.id = type)).flatMap (·.entries)).find? (·.id = entry)

variable {package : Package} {packages : List Package} {type entry : UInt32}

theorem firstOf_cons : firstOf (package :: packages) type entry =
    (firstOf [package] type entry).or (firstOf packages type entry) := by
  simp only [firstOf, List.flatMap_cons, List.flatMap_nil, List.append_nil, List.filter_append,
    List.flatMap_append, List.find?_append]

theorem firstOf_eq_none_iff :
    firstOf packages type entry = none ↔ ∀ p ∈ packages, ¬ p.Holds type entry := by
  simp only [firstOf, List.find?_eq_none, List.mem_flatMap, List.mem_filter, decide_eq_true_eq,
    Holds]
  grind

theorem holds_of_firstOf {e : Entry} (h : firstOf packages type entry = some e) :
    ∃ p ∈ packages, p.Holds type entry := by
  rw [firstOf] at h
  have hentry := List.find?_some h
  obtain ⟨t, ht, he⟩ := List.mem_flatMap.1 (List.mem_of_find?_eq_some h)
  obtain ⟨ht, hid⟩ := List.mem_filter.1 ht
  obtain ⟨p, hp, ht⟩ := List.mem_flatMap.1 ht
  exact ⟨p, hp, t, ht, of_decide_eq_true hid, e, he, of_decide_eq_true hentry⟩

/-- Packages that do not hold an entry with the numbers may be left out of the search. -/
theorem firstOf_filter {keep : Package → Bool}
    (h : ∀ p ∈ packages, p.Holds type entry → keep p = true) :
    firstOf (packages.filter keep) type entry = firstOf packages type entry := by
  induction packages with
  | nil => rfl
  | cons p ps ih =>
    obtain ⟨hp, hps⟩ := List.forall_mem_cons.1 h
    rw [firstOf_cons]
    by_cases hkeep : keep p = true
    · rw [List.filter_cons_of_pos hkeep, firstOf_cons, ih hps]
    · have hnone : firstOf [p] type entry = none :=
        firstOf_eq_none_iff.2 (List.forall_mem_singleton.2 fun hholds => hkeep (hp hholds))
      rw [List.filter_cons_of_neg hkeep, ih hps, hnone, Option.none_or]

/-- New numbers for packages make no difference to what is in them. -/
theorem firstOf_renumber (new : UInt32) :
    firstOf (packages.map fun p => { p with id := new }) type entry =
      firstOf packages type entry := by
  rw [firstOf, firstOf, List.flatMap_map]

end Package

/-! ## Moved tables -/

namespace Table

/-- Packages with different numbers do not hold entries with the same numbers. -/
def Unshared (t : Table) : Prop :=
  ∀ p ∈ t.packages, ∀ q ∈ t.packages, ∀ type entry,
    p.Holds type entry → q.Holds type entry → p.id = q.id

variable {t : Table} {new : UInt32}

theorem move?_ok (hnew : 1 ≤ new.toNat ∧ new.toNat ≤ 0xff) :
    t.move? new = .ok ⟨t.packages.map fun p => { p with id := new }⟩ := by
  rw [move?, checkPackageId_eq_ok_iff.2 hnew]
  rfl

/-- Packages that have the number already stay as they are. -/
theorem renumber_self (h : ∀ p ∈ t.packages, p.id = new) :
    Table.mk (t.packages.map fun p => { p with id := new }) = t := by
  have hpackages : t.packages.map (fun p => { p with id := new }) = t.packages := by
    refine (List.map_congr_left fun p hp => ?_).trans (List.map_id _)
    rw [← h p hp, id]
  rw [hpackages]

/-- Of two new numbers the second stays. -/
theorem renumber_renumber (first second : UInt32) :
    (t.packages.map fun p => { p with id := first }).map (fun p => { p with id := second }) =
      t.packages.map fun p => { p with id := second } :=
  List.map_map

theorem packageIds_renumber :
    packageIds ⟨t.packages.map fun p => { p with id := new }⟩ = t.packageIds.map fun _ => new := by
  rw [packageIds, packageIds, List.map_map, List.map_map]
  rfl

/-- New numbers for packages make no difference to the files. -/
theorem files_renumber : files ⟨t.packages.map fun p => { p with id := new }⟩ = t.files := by
  simp only [files, resources, List.flatMap_map, List.flatMap_assoc]

theorem xmlPaths?_renumber :
    xmlPaths? ⟨t.packages.map fun p => { p with id := new }⟩ = t.xmlPaths? := by
  rw [xmlPaths?, xmlPaths?, pathsOf?, pathsOf?, files_renumber]

theorem entry?_eq_firstOf (t : Table) (i : Id) : t.entry? i =
    Package.firstOf (t.packages.filter (·.id = i.package)) i.type i.entry :=
  rfl

/-- In a moved table an id of the new package is searched in all packages. -/
theorem entry?_renumber_of_eq {i : Id} (h : i.package = new) :
    entry? ⟨t.packages.map fun p => { p with id := new }⟩ i =
      Package.firstOf t.packages i.type i.entry := by
  rw [entry?_eq_firstOf, List.filter_eq_self.2, Package.firstOf_renumber]
  simp [h]

/-- In a moved table an id of another package leads nowhere. -/
theorem entry?_renumber_of_ne {i : Id} (h : i.package ≠ new) :
    entry? ⟨t.packages.map fun p => { p with id := new }⟩ i = none := by
  rw [entry?_eq_firstOf, List.filter_eq_nil_iff.2]
  · rfl
  · simp [Ne.symm h]

theorem mem_packageIds_of_found {i : Id} {e : Entry} (h : t.entry? i = some e) :
    i.package ∈ t.packageIds := by
  obtain ⟨package, hpackage, -, -, hp, -⟩ := mem_of_entry? h
  exact List.mem_map.2 ⟨package, hpackage, hp.symm⟩

/-- Where an id leads to an entry, searching all packages finds the same one. -/
theorem firstOf_packages (ht : t.Unshared) {i : Id} {e : Entry} (h : t.entry? i = some e) :
    Package.firstOf t.packages i.type i.entry = some e := by
  rw [← h, entry?_eq_firstOf]
  symm
  refine Package.firstOf_filter fun p hp hholds => ?_
  -- The entry that was found stands in a package that the id names.
  obtain ⟨q, hq, hqholds⟩ := Package.holds_of_firstOf h
  obtain ⟨hq, hqid⟩ := List.mem_filter.1 hq
  rw [decide_eq_true_eq] at hqid ⊢
  rw [ht p hp q hq _ _ hholds hqholds, hqid]

/-- A moved id leads to the entry in the moved table that the id led to.  An id of
neither an old package nor the new one leads nowhere there.  Where all packages had
one number, an id of that number leads to the same as before, be it nothing. -/
theorem entry?_move? (ht : t.Unshared) (hnew : 1 ≤ new.toNat ∧ new.toNat ≤ 0xff) (i : Id) :
    ∃ t' i', t.move? new = .ok t' ∧ i'.word = moveId t.packageIds new i.word ∧
      i'.package = (if i.package ∈ t.packageIds then new else i.package) ∧
      i'.type = i.type ∧ i'.entry = i.entry ∧
      (∀ e, t.entry? i = some e → t'.entry? i' = some e) ∧
      (i.package ∉ t.packageIds → i.package ≠ new → t'.entry? i' = none) ∧
      ((∀ p ∈ t.packages, p.id = i.package) → t'.entry? i' = t.entry? i) := by
  obtain ⟨i', hword, hpackage, htype, hentry⟩ := @Id.exists_moved t.packageIds _ hnew i
  refine ⟨⟨t.packages.map fun p => { p with id := new }⟩, i', move?_ok hnew, hword, hpackage,
    htype, hentry, ?_, ?_, ?_⟩
  · intro e he
    rw [if_pos (mem_packageIds_of_found he)] at hpackage
    rw [entry?_renumber_of_eq hpackage, htype, hentry, firstOf_packages ht he]
  · intro hold hother
    rw [if_neg hold] at hpackage
    exact entry?_renumber_of_ne (hpackage ▸ hother)
  · intro hall
    cases hpackages : t.packages with
    | nil => simp [entry?_eq_firstOf, hpackages, Package.firstOf]
    | cons p ps =>
      have hmem : i.package ∈ t.packageIds := by
        rw [← hall p (by simp [hpackages]), packageIds, hpackages]
        exact List.mem_cons_self
      rw [if_pos hmem] at hpackage
      rw [← hpackages, entry?_renumber_of_eq hpackage, htype, hentry, entry?_eq_firstOf,
        List.filter_eq_self.2 fun q hq => decide_eq_true (hall q hq)]

/-- A package with one type of strings, which has one entry. -/
def oneString (package entry : UInt32) (name : String) : Package where
  id := package
  name
  types := [{ id := 1, name := "string", entries := [{ id := entry, name, values := [] }] }]

/-- Two packages that have the same type and different entries in it. -/
def splitTable : Table := ⟨[oneString 0x7f 0 "title", oneString 2 1 "label"]⟩

/-- The id of the entry in the first of them. -/
def titleId : Id := ⟨0x7f010000, by decide, by decide⟩

theorem unshared_splitTable : splitTable.Unshared := by
  have hdiffer : ∀ p ∈ splitTable.packages, ∀ q ∈ splitTable.packages, p.id = q.id ∨
      ∀ s ∈ p.types, ∀ t ∈ q.types, s.id ≠ t.id ∨
        ∀ e ∈ s.entries, ∀ f ∈ t.entries, e.id ≠ f.id := by
    decide
  rintro p hp q hq type entry ⟨s, hs, rfl, e, he, rfl⟩ ⟨t, ht, hst, f, hf, hef⟩
  rcases hdiffer p hp q hq with heq | hne
  · exact heq
  rcases hne s hs t ht with hne | hne
  · exact absurd hst.symm hne
  · exact absurd hef.symm (hne e he f hf)

theorem entry?_move?_splitTable :
    splitTable.Unshared ∧ ∃ t' i', splitTable.move? 2 = .ok t' ∧ i'.word = 0x02010000 ∧
      t'.entry? i' = some { id := 0, name := "title", values := [] } := by
  obtain ⟨t', i', hmove, hword, -, -, -, hfound, -⟩ :=
    @entry?_move? _ 2 unshared_splitTable (by decide) titleId
  exact ⟨unshared_splitTable, t', i', hmove, hword, hfound _ rfl⟩

end Table

end AppBundle.Resource
