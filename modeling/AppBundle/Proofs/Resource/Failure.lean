import AppBundle.Proofs.Resource.Allocation

/-!
# Calls that fail

A call of an allocator that fails adds no entry, but it can leave a type behind.
The type that a call makes is put into the package before the id is composed,
and no id can be composed in a package whose number is out of range.  The empty
type then stays, and the call is said to strand it (`Allocator.Strands`).

There is no other way.  The other failures come before anything is written, and
a new type has a number in range and room for a first entry, so a call that
makes one goes through where the package is in range
(`Allocator.add_of_error`).  The table is therefore as before exactly when no
type is stranded.
-/

namespace AppBundle.Resource

/-! ## New types -/

theorem range_of_freeTypeId? {types : List EntryType} {id : UInt32}
    (h : freeTypeId? types = some id) : 1 ≤ id.toNat ∧ id.toNat ≤ 0xff :=
  (lowest_of_gapId? (by decide) h).1.1

theorem EntryType.nextId?_of_nil {t : EntryType} (h : t.entries = []) : t.nextId? = some 0 := by
  simp [nextId?, h]

namespace Package

variable {p p' : Package} {name : String} {t : EntryType}

/-- A type is found where it stands, or made: then it is empty, its number is
free, and it is put among the others. -/
theorem withType?_cases (h : p.withType? name = .ok (t, p')) :
    (p' = p ∧ ∃ s ∈ p.types, s.name = name) ∨
      ((∀ s ∈ p.types, s.name ≠ name) ∧ t.entries = [] ∧ freeTypeId? p.types = some t.id ∧
        ∃ index ≤ p.types.length, p' = { p with types := p.types.insertIdx index t }) := by
  simp only [withType?] at h
  split at h
  · rename_i s hfind
    cases h
    have hname := List.find?_some hfind
    exact .inl ⟨rfl, t, List.mem_of_find?_eq_some hfind, beq_iff_eq.1 hname⟩
  · rename_i hnone
    split at h
    · cases h
    · rename_i id hfree
      cases h
      refine .inr ⟨?_, rfl, hfree, _, boundary_le_length _ _, rfl⟩
      intro s hs heq
      exact List.find?_eq_none.1 hnone s hs (beq_iff_eq.2 heq)

theorem freeTypeId?_of_error {fault : BundleError} (h : p.withType? name = .error fault) :
    freeTypeId? p.types = none := by
  simp only [withType?] at h
  split at h
  · cases h
  · split at h
    · assumption
    · cases h

end Package

theorem flatMap_insertIdx_of_nil {α β : Type} {f : α → List β} {a : α} (ha : f a = [])
    (l : List α) (index : Nat) : (l.insertIdx index a).flatMap f = l.flatMap f := by
  induction l generalizing index with
  | nil =>
    cases index with
    | zero => simp [ha]
    | succ index => rfl
  | cons b bs ih =>
    cases index with
    | zero => simp [ha]
    | succ index => rw [List.insertIdx_succ_cons, List.flatMap_cons, ih, List.flatMap_cons]

/-- An empty type lists no resource, wherever it is put. -/
theorem Table.resources_insertIdx {t : EntryType} (ht : t.entries = []) (p : Package)
    (index : Nat) (others : List Package) :
    resources ⟨{ p with types := p.types.insertIdx index t } :: others⟩ =
      resources ⟨p :: others⟩ := by
  simp only [resources, List.flatMap_cons]
  rw [flatMap_insertIdx_of_nil]
  rw [ht, List.map_nil]

/-! ## Calls -/

namespace Allocator

variable {a : Allocator} {type : String} {e : Entry} {fault : BundleError}

theorem table_of_ofTable? {t : Table} (h : ofTable? t = .ok a) : a.table = t := by
  obtain ⟨packages⟩ := t
  cases packages with
  | nil => cases h
  | cons package others =>
    cases h
    rfl

/-- A call for this type makes it, in a package whose number no id can have. -/
structure Strands (a : Allocator) (type : String) : Prop where
  /-- The number of the package is out of range. -/
  package : ¬ (1 ≤ a.package.id.toNat ∧ a.package.id.toNat ≤ 0xff)
  /-- There is no type of the name. -/
  absent : ∀ t ∈ a.package.types, t.name ≠ type
  /-- A number is free for it. -/
  free : (freeTypeId? a.package.types).isSome

/-- A call that has its type and fails stops there: no number was left, or none
that makes an id. -/
theorem add_of_withType? {t : EntryType} {package : Package}
    (htype : a.package.withType? type = .ok (t, package)) (h : (a.add type e).1 = .error fault) :
    (a.add type e).2 = { a with package } ∧
      ∀ entryId, t.nextId? = some entryId → ¬ ∃ i, Id.compose? package.id t.id entryId = .ok i := by
  simp only [add, htype] at h ⊢
  split at h
  · rename_i hnone
    simp only [hnone]
    exact ⟨trivial, by rintro _ ⟨⟩⟩
  · rename_i entryId hnext
    simp only [hnext]
    split at h
    · rename_i fault' hfault
      refine ⟨rfl, ?_⟩
      rintro _ ⟨⟩ ⟨i, hi⟩
      rw [hfault] at hi
      cases hi
    · cases h

/-- A call that fails leaves the allocator as it was, unless it strands a type.
Then the empty type is put among the others. -/
theorem add_of_error (h : (a.add type e).1 = .error fault) :
    (¬ a.Strands type ∧ (a.add type e).2 = a) ∨
      (a.Strands type ∧ ∃ t : EntryType, t.entries = [] ∧ ∃ index ≤ a.package.types.length,
        (a.add type e).2 =
          { a with package := { a.package with types := a.package.types.insertIdx index t } }) := by
  cases htype : a.package.withType? type with
  | error fault' =>
    refine .inl ⟨?_, by simp only [add, htype]⟩
    intro hstrands
    have hfree := hstrands.free
    rw [Package.freeTypeId?_of_error htype] at hfree
    cases hfree
  | ok found =>
    obtain ⟨t, package⟩ := found
    obtain ⟨hleft, hno⟩ := add_of_withType? htype h
    rcases Package.withType?_cases htype with
      ⟨rfl, s, hs, hname⟩ | ⟨habsent, hempty, hfree, index, hindex, rfl⟩
    · exact .inl ⟨fun hstrands => hstrands.absent s hs hname, hleft⟩
    · -- The number of the type is in range and so is its first entry: the package is to blame.
      have hpackage : ¬ (1 ≤ a.package.id.toNat ∧ a.package.id.toNat ≤ 0xff) := by
        intro hp
        refine hno 0 (EntryType.nextId?_of_nil hempty) (Id.compose?_ok_iff.2 ?_)
        exact ⟨hp, range_of_freeTypeId? hfree, by decide⟩
      exact .inr ⟨⟨hpackage, habsent, hfree ▸ rfl⟩, t, hempty, index, hindex, hleft⟩

/-- A call that fails adds no entry, and it leaves the table as it was exactly
where it strands no type. -/
theorem table_of_error {t : Table} (ha : ofTable? t = .ok a)
    (h : (a.add type e).1 = .error fault) :
    (a.add type e).2.table.resources = t.resources ∧
      ((a.add type e).2.table = t ↔ ¬ a.Strands type) := by
  rw [← table_of_ofTable? ha]
  rcases add_of_error h with ⟨hnot, hsame⟩ | ⟨hstrands, s, hempty, index, hindex, hleft⟩
  · rw [hsame]
    exact ⟨rfl, fun _ => hnot, fun _ => rfl⟩
  · rw [hleft]
    refine ⟨Table.resources_insertIdx hempty a.package index a.others, ?_, ?_⟩
    · -- The package has one type more than before.
      intro heq
      have hlength := congrArg (fun t : Table => t.packages.map (·.types.length)) heq
      simp [table, List.length_insertIdx, hindex] at hlength
    · intro hnot
      exact absurd hstrands hnot

theorem table_of_error_gapPackage :
    let outcome := add ⟨gapPackage, []⟩ "xml" { name := "splits", values := [] }
    outcome.1 = .error (.resourceExhausted (.entryIds 0x7f "xml")) ∧
      outcome.2.table = ⟨[gapPackage]⟩ := by
  have hfull : (add ⟨gapPackage, []⟩ "xml" { name := "splits", values := [] }).1 =
      .error (.resourceExhausted (.entryIds 0x7f "xml")) := rfl
  have hnot : ¬ Strands ⟨gapPackage, []⟩ "xml" := fun h => h.package (by decide)
  exact ⟨hfull, (table_of_error (t := ⟨[gapPackage]⟩) rfl hfull).2.2 hnot⟩

/-- A package without types, whose number is one too high. -/
def highPackage : Package := { id := 0x100, name := "app", types := [] }

/-- The call fails, but the type stays. -/
theorem add_highPackage :
    let outcome := add ⟨highPackage, []⟩ "xml" { name := "splits", values := [] }
    ofTable? ⟨[highPackage]⟩ = .ok ⟨highPackage, []⟩ ∧
      outcome.1 = .error (.invalidArgument (.packageId 0x100)) ∧
      outcome.2.table = ⟨[{ highPackage with types := [⟨1, "xml", []⟩] }]⟩ ∧
      outcome.2.table ≠ ⟨[highPackage]⟩ :=
  ⟨rfl, rfl, by decide +kernel, by decide +kernel⟩

end Allocator

end AppBundle.Resource
