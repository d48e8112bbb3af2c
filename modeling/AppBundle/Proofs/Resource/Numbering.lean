import AppBundle.Proofs.Resource.Failure

/-!
# Which numbers a new entry gets

An entry is numbered after the highest entry of its type (`EntryType.Next`), and
a type that is made for it gets the lowest number that no type has
(`Package.Free`).  Nothing else in the table changes but that the entry is put at
the end of its type, and the new type among the others (`Package.Gains`).

Numbers can run out in both ways (`Package.Exhausted`).  In a package that is in
range, with types in range, a call fails exactly when they have, and any other
call gives the id of the numbers (`Allocator.add_exact`).
-/

namespace AppBundle.Resource

/-! ## Numbers of entries -/

/-- The number of a new entry of a type. -/
inductive EntryType.Next (t : EntryType) : UInt32 → Prop where
  /-- A type without entries starts with zero. -/
  | first (empty : t.entries = []) : t.Next 0
  /-- After that it is one above the highest number. -/
  | succ {last : Entry} {n : UInt32} (mem : last ∈ t.entries)
      (highest : ∀ e ∈ t.entries, e.id.toNat ≤ last.id.toNat)
      (next : n.toNat = last.id.toNat + 1) : t.Next n

namespace EntryType

variable {t : EntryType} {n : UInt32}

theorem highest_of_max? {highest : Nat} (h : (t.entries.map (·.id.toNat)).max? = some highest) :
    ∃ last ∈ t.entries, last.id.toNat = highest ∧ ∀ e ∈ t.entries, e.id.toNat ≤ highest := by
  obtain ⟨hmem, hle⟩ := List.max?_eq_some_iff.1 h
  obtain ⟨last, hlast, heq⟩ := List.mem_map.1 hmem
  exact ⟨last, hlast, heq, fun e he => hle _ (List.mem_map.2 ⟨e, he, rfl⟩)⟩

theorem next_of_nextId? (h : t.nextId? = some n) : t.Next n := by
  simp only [nextId?] at h
  split at h
  · rename_i hmax
    cases h
    exact .first (List.map_eq_nil_iff.1 (List.max?_eq_none_iff.1 hmax))
  · rename_i highest hmax
    split at h
    · rename_i hlt
      cases h
      obtain ⟨last, hlast, rfl, hle⟩ := highest_of_max? hmax
      refine .succ hlast hle ?_
      rw [UInt32.toNat_ofNat']
      omega
    · cases h

/-- A type has no number left when an entry has the highest one, or one above it. -/
theorem nextId?_eq_none_iff : t.nextId? = none ↔ ∃ e ∈ t.entries, 0xffff ≤ e.id.toNat := by
  simp only [nextId?]
  split
  · rename_i hmax
    rw [List.map_eq_nil_iff.1 (List.max?_eq_none_iff.1 hmax)]
    simp
  · rename_i highest hmax
    obtain ⟨last, hlast, rfl, hle⟩ := highest_of_max? hmax
    split
    · rename_i hlt
      refine iff_of_false (Option.some_ne_none _) ?_
      rintro ⟨e, he, hhigh⟩
      exact absurd (hle e he) (by omega)
    · rename_i hhigh
      exact iff_of_true rfl ⟨last, hlast, Nat.not_lt.1 hhigh⟩

theorem le_of_nextId? (h : t.nextId? = some n) : n.toNat ≤ 0xffff := by
  cases next_of_nextId? h with
  | first empty => exact Nat.zero_le _
  | @succ last n mem highest next =>
    have hlow : ¬ 0xffff ≤ last.id.toNat := by
      intro hhigh
      rw [nextId?_eq_none_iff.2 ⟨last, mem, hhigh⟩] at h
      cases h
    omega

end EntryType

namespace Package

variable {p : Package} {name : String} {t : EntryType} {before after : List EntryType}

/-! ## Numbers of types -/

/-- A number for a type that no type has. -/
def Free (p : Package) (id : Nat) : Prop :=
  (1 ≤ id ∧ id ≤ 0xff) ∧ ∀ t ∈ p.types, t.id.toNat ≠ id

theorem free_iff_not_mem {k : Nat} :
    p.Free k ↔ (1 ≤ k ∧ k ≤ 0xff) ∧ k ∉ p.types.map (·.id.toNat) := by
  simp [Free]

/-- The number with which the first gap starts is free, and no lower one is. -/
theorem free_of_freeTypeId? {id : UInt32} (h : freeTypeId? p.types = some id) :
    p.Free id.toNat ∧ ∀ k, p.Free k → id.toNat ≤ k := by
  obtain ⟨hfree, hlowest⟩ := lowest_of_gapId? (by decide) h
  refine ⟨free_iff_not_mem.2 hfree, fun k hk => ?_⟩
  obtain ⟨⟨hlow, hhigh⟩, hunused⟩ := free_iff_not_mem.1 hk
  exact hlowest k hlow hhigh hunused

/-- There is no gap when all numbers are taken. -/
theorem freeTypeId?_eq_none_iff : freeTypeId? p.types = none ↔ ∀ k, ¬ p.Free k := by
  rw [freeTypeId?, gapId?_eq_none_iff]
  refine forall_congr' fun k => ?_
  rw [free_iff_not_mem]
  simp only [not_and, Classical.not_not, and_imp]

/-! ## Places -/

/-- The first type of a name, with the types before and after it. -/
structure First (p : Package) (name : String) (before : List EntryType) (t : EntryType)
    (after : List EntryType) : Prop where
  /-- The types stand in this order. -/
  types_eq : p.types = before ++ t :: after
  /-- The type has the name. -/
  name_eq : t.name = name
  /-- No type before it has. -/
  first : ∀ s ∈ before, s.name ≠ name

theorem find?_eq_some_iff_first :
    p.types.find? (·.name == name) = some t ↔ ∃ before after, p.First name before t after := by
  rw [List.find?_eq_some_iff_append]
  constructor
  · rintro ⟨hname, before, after, htypes, hbefore⟩
    exact ⟨before, after, htypes, by simpa using hname, by simpa using hbefore⟩
  · rintro ⟨before, after, htypes, hname, hfirst⟩
    exact ⟨by simpa using hname, before, after, htypes, by simpa using hfirst⟩

theorem find?_eq_none_iff_absent :
    p.types.find? (·.name == name) = none ↔ ∀ t ∈ p.types, t.name ≠ name := by
  simp

/-- An entry of the next number comes to stand at the end of its type. -/
theorem First.insert_eq (h : p.First name before t after) {e : Entry}
    (hnext : t.nextId? = some e.id) :
    p.insert name e =
      { p with types := before ++ { t with entries := t.entries ++ [e] } :: after } := by
  rw [← EntryType.insert_of_nextId? hnext rfl, insert, h.types_eq, FirstMatch.modify_append_cons]
  · exact fun s hs hname => h.first s hs (beq_iff_eq.1 hname)
  · exact beq_iff_eq.2 h.name_eq

theorem First.withType?_eq (h : p.First name before t after) : p.withType? name = .ok (t, p) := by
  rw [withType?, find?_eq_some_iff_first.2 ⟨before, after, h⟩]

theorem insertIdx_eq {l : List EntryType} {index : Nat} (h : index ≤ l.length) (t : EntryType) :
    l.insertIdx index t = l.take index ++ t :: l.drop index := by
  induction l generalizing index with
  | nil =>
    cases Nat.le_zero.1 h
    rfl
  | cons s l ih =>
    cases index with
    | zero => rfl
    | succ index =>
      rw [List.insertIdx_succ_cons, ih (Nat.le_of_succ_le_succ h), List.take_succ_cons,
        List.drop_succ_cons, List.cons_append]

/-- A type that is made stands before the types with higher numbers, if the types
are in order. -/
theorem ascending_take_drop {id : UInt32} (hid : ∀ s ∈ p.types, s.id ≠ id)
    (h : (p.types.map (·.id)).Pairwise (· < ·)) (entries : List Entry) :
    ((p.types.take (boundary (·.id < id) p.types) ++
      { id, name, entries } :: p.types.drop (boundary (·.id < id) p.types)).map (·.id)).Pairwise
        (· < ·) := by
  rw [List.pairwise_map] at h ⊢
  have hordered : p.types.Pairwise fun s t =>
      decide (t.id < id) = true → decide (s.id < id) = true :=
    h.imp fun hst ht => decide_eq_true (UInt32.lt_trans hst (of_decide_eq_true ht))
  obtain ⟨hbelow, habove⟩ := take_drop_boundary hordered
  have hsplit := List.take_append_drop (boundary (·.id < id) p.types) p.types
  rw [← hsplit] at h
  obtain ⟨hbefore, hafter, hcross⟩ := List.pairwise_append.1 h
  refine List.pairwise_append.2 ⟨hbefore, List.pairwise_cons.2 ⟨fun s hs => ?_, hafter⟩, ?_⟩
  · have hle : id ≤ s.id := UInt32.not_lt.1 fun hlt => habove s hs (decide_eq_true hlt)
    exact UInt32.lt_of_le_of_ne hle (hid s (List.mem_of_mem_drop hs)).symm
  · intro s hs t ht
    rcases List.mem_cons.1 ht with rfl | ht
    · exact of_decide_eq_true (hbelow s hs)
    · exact hcross s hs t ht

/-! ## Outcomes -/

/-- A package, the numbers that a call gives to the type and to the entry, and the
package after it. -/
inductive Gains (p : Package) (name : String) (e : Entry) : UInt32 → UInt32 → Package → Prop where
  /-- The entry is put at the end of the first type of the name. -/
  | entry {before after : List EntryType} {t : EntryType} {n : UInt32}
      (place : p.First name before t after) (next : t.Next n) :
      p.Gains name e t.id n
        { p with
          types := before ++ { t with entries := t.entries ++ [{ e with id := n }] } :: after }
  /-- Where no type has the name, one is made that holds the entry alone. -/
  | type {before after : List EntryType} {id : UInt32} (place : p.types = before ++ after)
      (absent : ∀ t ∈ p.types, t.name ≠ name) (free : p.Free id.toNat)
      (lowest : ∀ k, p.Free k → id.toNat ≤ k) :
      p.Gains name e id 0
        { p with types := before ++ { id, name, entries := [{ e with id := 0 }] } :: after }

/-- There is no number left for a call. -/
inductive Exhausted (p : Package) (name : String) : Shortage → Prop where
  /-- An entry of the first type of the name has the highest number, or one above it. -/
  | entries {before after : List EntryType} {t : EntryType} (place : p.First name before t after)
      {last : Entry} (mem : last ∈ t.entries) (high : 0xffff ≤ last.id.toNat) :
      p.Exhausted name (.entryIds p.id name)
  /-- No type has the name, and all numbers for types are taken. -/
  | types (absent : ∀ t ∈ p.types, t.name ≠ name)
      (taken : ∀ k, 1 ≤ k → k ≤ 0xff → ∃ t ∈ p.types, t.id.toNat = k) :
      p.Exhausted name (.typeIds p.id name)

end Package

/-! ## Calls -/

namespace Allocator

variable {p : Package} {name : String}

theorem not_free_iff {k : Nat} (hk : 1 ≤ k ∧ k ≤ 0xff) :
    ¬ p.Free k ↔ ∃ t ∈ p.types, t.id.toNat = k := by
  simp [Package.Free, hk]

variable (others : List Package) (e : Entry)

/-- A call fails when there is no number left for it. -/
theorem add_of_exhausted {shortage : Shortage} (h : p.Exhausted name shortage) :
    add ⟨p, others⟩ name e = (.error (.resourceExhausted shortage), ⟨p, others⟩) := by
  cases h with
  | entries place mem high =>
    have hnext := EntryType.nextId?_eq_none_iff.2 ⟨_, mem, high⟩
    simp only [add, place.withType?_eq, hnext]
  | types absent taken =>
    have hfree : freeTypeId? p.types = none := by
      refine Package.freeTypeId?_eq_none_iff.2 fun k hk => ?_
      exact (not_free_iff hk.1).2 (taken k hk.1.1 hk.1.2) hk
    simp only [add, Package.withType?, Package.find?_eq_none_iff_absent.2 absent, hfree]

/-- A call for a type that is there puts the entry at its end. -/
theorem add_of_first {before after : List EntryType} {t : EntryType}
    (place : p.First name before t after) {n : UInt32} (hnext : t.nextId? = some n) {i : Id}
    (hi : Id.compose? p.id t.id n = .ok i) :
    add ⟨p, others⟩ name e = (.ok i, ⟨{ p with
      types := before ++ { t with entries := t.entries ++ [{ e with id := n }] } :: after },
      others⟩) := by
  have hinsert := place.insert_eq (e := { e with id := n }) hnext
  simp only [add, place.withType?_eq, hnext, hi, hinsert]

/-- A call for a type that is not there puts one with the entry among the others. -/
theorem add_of_absent (absent : ∀ t ∈ p.types, t.name ≠ name) {id : UInt32}
    (hfree : freeTypeId? p.types = some id) {i : Id} (hi : Id.compose? p.id id 0 = .ok i) :
    add ⟨p, others⟩ name e = (.ok i, ⟨{ p with
      types := p.types.take (boundary (·.id < id) p.types) ++
        { id, name, entries := [{ e with id := 0 }] } ::
          p.types.drop (boundary (·.id < id) p.types) }, others⟩) := by
  have hindex := boundary_le_length (fun t : EntryType => t.id < id) p.types
  have place : Package.First
      { p with
        types := p.types.insertIdx (boundary (·.id < id) p.types) { id, name, entries := [] } }
      name (p.types.take (boundary (·.id < id) p.types)) { id, name, entries := [] }
      (p.types.drop (boundary (·.id < id) p.types)) := by
    refine ⟨Package.insertIdx_eq hindex _, rfl, fun s hs => ?_⟩
    exact absent s (List.mem_of_mem_take hs)
  have hnext : EntryType.nextId? { id, name, entries := [] } = some 0 :=
    EntryType.nextId?_of_nil rfl
  have hinsert := place.insert_eq (e := { e with id := 0 }) hnext
  simp only [add, Package.withType?, Package.find?_eq_none_iff_absent.2 absent, hfree, hnext, hi,
    hinsert, List.nil_append]

/-- A call gives an id where there is a number left for it. -/
theorem add_of_not_exhausted (hp : 1 ≤ p.id.toNat ∧ p.id.toNat ≤ 0xff)
    (htypes : ∀ t ∈ p.types, 1 ≤ t.id.toNat ∧ t.id.toNat ≤ 0xff)
    (h : ¬ ∃ shortage, p.Exhausted name shortage) :
    ∃ i type entry p', add ⟨p, others⟩ name e = (.ok i, ⟨p', others⟩) ∧
      Id.compose? p.id type entry = .ok i ∧ p.Gains name e type entry p' ∧
      ((p.types.map (·.id)).Pairwise (· < ·) → (p'.types.map (·.id)).Pairwise (· < ·)) := by
  cases hfind : p.types.find? (·.name == name) with
  | some t =>
    obtain ⟨before, after, place⟩ := Package.find?_eq_some_iff_first.1 hfind
    cases hnext : t.nextId? with
    | none =>
      obtain ⟨last, mem, high⟩ := EntryType.nextId?_eq_none_iff.1 hnext
      exact absurd ⟨_, .entries place mem high⟩ h
    | some n =>
      have ht := htypes t (List.mem_of_find?_eq_some hfind)
      obtain ⟨i, hi⟩ := Id.compose?_ok_iff.2 ⟨hp, ht, EntryType.le_of_nextId? hnext⟩
      refine ⟨i, t.id, n, _, add_of_first others e place hnext hi, hi,
        .entry place (EntryType.next_of_nextId? hnext), fun hordered => ?_⟩
      simpa only [place.types_eq, List.map_append, List.map_cons] using hordered
  | none =>
    have absent := Package.find?_eq_none_iff_absent.1 hfind
    cases hfree : freeTypeId? p.types with
    | none =>
      refine absurd ⟨_, .types absent fun k hlow hhigh => ?_⟩ h
      exact (not_free_iff ⟨hlow, hhigh⟩).1 (Package.freeTypeId?_eq_none_iff.1 hfree k)
    | some id =>
      obtain ⟨free, lowest⟩ := Package.free_of_freeTypeId? hfree
      obtain ⟨i, hi⟩ : ∃ i, Id.compose? p.id id 0 = .ok i :=
        Id.compose?_ok_iff.2 ⟨hp, free.1, Nat.zero_le _⟩
      refine ⟨i, id, 0, _, add_of_absent others e absent hfree hi, hi,
        .type (List.take_append_drop _ _).symm absent free lowest, ?_⟩
      exact fun hordered => Package.ascending_take_drop
        (fun t ht heq => free.2 t ht (congrArg UInt32.toNat heq)) hordered _

/-- In a package that is in range, with types in range, a call fails exactly when no
number is left for it.  Otherwise it gives the id of the numbers that come next: after
the highest entry of the first type of the name, or the lowest one that no type has.
The entry is the last of its type, all else stays, and types in order stay in order. -/
theorem add_exact (hp : 1 ≤ p.id.toNat ∧ p.id.toNat ≤ 0xff)
    (htypes : ∀ t ∈ p.types, 1 ≤ t.id.toNat ∧ t.id.toNat ≤ 0xff) (name : String) :
    ∃ a, ofTable? ⟨p :: others⟩ = .ok a ∧
      (∀ fault, (a.add name e).1 = .error fault ↔
        ∃ shortage, p.Exhausted name shortage ∧ fault = .resourceExhausted shortage) ∧
      ∀ i, (a.add name e).1 = .ok i → ∃ type entry p',
        Id.compose? p.id type entry = .ok i ∧ p.Gains name e type entry p' ∧
        (a.add name e).2.table = ⟨p' :: others⟩ ∧
        ((p.types.map (·.id)).Pairwise (· < ·) → (p'.types.map (·.id)).Pairwise (· < ·)) := by
  refine ⟨⟨p, others⟩, rfl, ?_⟩
  by_cases h : ∃ shortage, p.Exhausted name shortage
  · obtain ⟨shortage, hshortage⟩ := h
    have hadd := add_of_exhausted others e hshortage
    refine ⟨fun fault => ⟨fun hfault => ?_, ?_⟩, fun i hi => ?_⟩
    · rw [hadd] at hfault
      cases hfault
      exact ⟨shortage, hshortage, rfl⟩
    · rintro ⟨shortage', hshortage', rfl⟩
      rw [add_of_exhausted others e hshortage']
    · rw [hadd] at hi
      cases hi
  · obtain ⟨i, type, entry, p', hadd, hi, hgains, hordered⟩ :=
      add_of_not_exhausted others e hp htypes h
    rw [hadd]
    refine ⟨fun fault => iff_of_false nofun ?_, ?_⟩
    · rintro ⟨shortage, hshortage, -⟩
      exact h ⟨shortage, hshortage⟩
    · rintro j ⟨⟩
      exact ⟨type, entry, p', hi, hgains, rfl, hordered⟩

/-- One type is full; a new one goes into the gap between the numbers of the two. -/
theorem add_exact_gapPackage :
    (1 ≤ gapPackage.id.toNat ∧ gapPackage.id.toNat ≤ 0xff) ∧
      (∀ t ∈ gapPackage.types, 1 ≤ t.id.toNat ∧ t.id.toNat ≤ 0xff) ∧
      gapPackage.Exhausted "xml" (.entryIds 0x7f "xml") ∧
      ∃ type entry p', Id.compose? 0x7f type entry = .ok ⟨0x7f020000, by decide, by decide⟩ ∧
        gapPackage.Gains "layout" { name := "main", values := [] } type entry p' := by
  have hpackage : 1 ≤ gapPackage.id.toNat ∧ gapPackage.id.toNat ≤ 0xff := by decide
  have htypes : ∀ t ∈ gapPackage.types, 1 ≤ t.id.toNat ∧ t.id.toNat ≤ 0xff := by decide
  refine ⟨hpackage, htypes, ?_, ?_⟩
  · obtain ⟨a, ⟨⟩, hfails, -⟩ :=
      add_exact [] { name := "splits", values := [] } hpackage htypes "xml"
    obtain ⟨shortage, hexhausted, hfault⟩ :=
      (hfails (.resourceExhausted (.entryIds 0x7f "xml"))).1 rfl
    cases hfault
    exact hexhausted
  · obtain ⟨a, ⟨⟩, -, hgives⟩ :=
      add_exact [] { name := "main", values := [] } hpackage htypes "layout"
    obtain ⟨type, entry, p', hi, hgains, -, -⟩ := hgives ⟨0x7f020000, by decide, by decide⟩ rfl
    exact ⟨type, entry, p', hi, hgains⟩

end Allocator

end AppBundle.Resource
