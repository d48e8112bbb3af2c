import AppBundle.Proofs.Ordered.Interval
import AppBundle.Proofs.Resource.Table
import AppBundle.Resource.Allocation

/-!
# Allocation never gives an id twice

An allocator only adds: types keep their numbers and names, and their entries
stay in front of the new ones (`Allocator.Grows`).  An entry is put where the lower
numbers stop, and that is the end, since its own number is above all others
(`EntryType.insert_of_nextId?`).  What keeps the ids apart is that the numbers of
the packages and of the types in the first package are all different
(`Allocator.Distinct`).  One call preserves that, and gives an id that
was free before and leads to the new entry afterwards (`Allocator.adds_add`).

Ids that a table has it keeps while it grows, and so does what they lead to.  A
run of calls therefore gives ids that are all different, and each leads to its
own entry to the end.
-/

namespace AppBundle.Resource

/-! ## Growth -/

/-- A type and what it has become by adding entries. -/
structure EntryType.Grows (t t' : EntryType) : Prop where
  /-- The number stays. -/
  id_eq : t'.id = t.id
  /-- The name stays. -/
  name_eq : t'.name = t.name
  /-- The entries stay, in front of new ones. -/
  entries : t.entries <+: t'.entries

theorem EntryType.Grows.refl (t : EntryType) : t.Grows t := ⟨rfl, rfl, List.prefix_rfl⟩

theorem EntryType.Grows.trans {t t' t'' : EntryType} (h : t.Grows t') (h' : t'.Grows t'') :
    t.Grows t'' :=
  ⟨h'.id_eq.trans h.id_eq, h'.name_eq.trans h.name_eq, h.entries.trans h'.entries⟩

/-- A package and what it has become by adding types and entries. -/
structure Package.Grows (p p' : Package) : Prop where
  /-- The number stays. -/
  id_eq : p'.id = p.id
  /-- The name stays. -/
  name_eq : p'.name = p.name
  /-- Each type stays, perhaps with more entries. -/
  types : ∀ t ∈ p.types, ∃ t' ∈ p'.types, t.Grows t'

theorem Package.Grows.refl (p : Package) : p.Grows p :=
  ⟨rfl, rfl, fun t ht => ⟨t, ht, .refl t⟩⟩

theorem Package.Grows.trans {p p' p'' : Package} (h : p.Grows p') (h' : p'.Grows p'') :
    p.Grows p'' := by
  refine ⟨h'.id_eq.trans h.id_eq, h'.name_eq.trans h.name_eq, ?_⟩
  intro t ht
  obtain ⟨t', ht', hgrows⟩ := h.types t ht
  obtain ⟨t'', ht'', hgrows'⟩ := h'.types t' ht'
  exact ⟨t'', ht'', hgrows.trans hgrows'⟩

/-! ## Numbers -/

variable {used : List Nat} {low high : Nat}

/-- The number that is found is the lowest of the range that is not in use. -/
theorem lowest_of_gapId? {n : UInt32} (hhigh : high < UInt32.size)
    (h : gapId? used low high = some n) :
    ((low ≤ n.toNat ∧ n.toNat ≤ high) ∧ n.toNat ∉ used) ∧
      ∀ k, low ≤ k → k ≤ high → k ∉ used → n.toNat ≤ k := by
  obtain ⟨gap, hgap, rfl⟩ := Option.map_eq_some_iff.1 h
  obtain ⟨⟨⟨hlow, hlast⟩, hfree⟩, hlowest⟩ := IntervalSet.lowest_of_head?_gaps hgap
  rw [UInt32.toNat_ofNat_of_lt' (Nat.lt_of_le_of_lt hlast hhigh)]
  exact ⟨⟨⟨hlow, hlast⟩, fun hmem => hfree (IntervalSet.mem_ofList.2 hmem)⟩,
    fun k hk hk' hused => hlowest k hk hk' fun hmem => hused (IntervalSet.mem_ofList.1 hmem)⟩

/-- None is found when all numbers of the range are in use. -/
theorem gapId?_eq_none_iff :
    gapId? used low high = none ↔ ∀ k, low ≤ k → k ≤ high → k ∈ used := by
  rw [gapId?, Option.map_eq_none_iff, IntervalSet.head?_gaps_eq_none_iff]
  simp only [IntervalSet.mem_ofList]

/-- The next number of a type is above those of its entries. -/
theorem EntryType.lt_nextId? {t : EntryType} {id : UInt32} (h : t.nextId? = some id) {e : Entry}
    (he : e ∈ t.entries) : e.id < id := by
  have hmem : e.id.toNat ∈ t.entries.map (·.id.toNat) := List.mem_map.2 ⟨e, he, rfl⟩
  simp only [nextId?] at h
  split at h
  · rename_i hmax
    rw [List.max?_eq_none_iff] at hmax
    rw [hmax] at hmem
    cases hmem
  · rename_i highest hmax
    split at h
    · rename_i hlt
      cases h
      have hle := (List.max?_eq_some_iff.1 hmax).2 _ hmem
      rw [UInt32.lt_iff_toNat_lt, UInt32.toNat_ofNat']
      omega
    · cases h

/-- No entry of a type has a number as high as the next one, so the end is the place
for that. -/
theorem EntryType.insert_of_nextId? {t : EntryType} {id : UInt32} (h : t.nextId? = some id)
    {e : Entry} (he : e.id = id) : t.insert e = { t with entries := t.entries ++ [e] } := by
  have hbelow : ∀ entry ∈ t.entries, decide (entry.id < e.id) = true := fun entry hentry =>
    decide_eq_true (he ▸ EntryType.lt_nextId? h hentry)
  rw [EntryType.insert, boundary_of_forall hbelow, List.insertIdx_length_self]

/-! ## Types -/

/-- A type that is put anywhere among types without a match is the first match. -/
theorem find?_insertIdx {p : EntryType → Bool} {t : EntryType} (ht : p t)
    {types : List EntryType} (h : types.find? p = none) {index : Nat}
    (hindex : index ≤ types.length) : (types.insertIdx index t).find? p = some t := by
  induction types generalizing index with
  | nil =>
    cases Nat.le_zero.1 hindex
    exact List.find?_cons_of_pos ht
  | cons t' types ih =>
    cases index with
    | zero => exact List.find?_cons_of_pos ht
    | succ index =>
      rw [List.find?_eq_none] at h
      obtain ⟨ht', htypes⟩ := List.forall_mem_cons.1 h
      rw [List.insertIdx_succ_cons, List.find?_cons_of_neg ht']
      exact ih (List.find?_eq_none.2 htypes) (Nat.le_of_succ_le_succ hindex)

namespace Package

variable {p p' : Package} {name : String} {t : EntryType}

/-- Looking for a type finds the first of the name, and adds one of a free number if need be. -/
theorem withType?_spec (h : p.withType? name = .ok (t, p')) :
    p.Grows p' ∧ p'.types.find? (·.name == name) = some t ∧
      ((p.types.map (·.id)).Nodup → (p'.types.map (·.id)).Nodup) := by
  simp only [withType?] at h
  split at h
  · rename_i hfind
    cases h
    exact ⟨.refl p, hfind, fun hnodup => hnodup⟩
  · rename_i hfind
    split at h
    · cases h
    · rename_i id hfree
      cases h
      have hindex := boundary_le_length (fun t : EntryType => t.id < id) p.types
      refine ⟨⟨rfl, rfl, fun t ht => ⟨t, ?_, .refl t⟩⟩, ?_, ?_⟩
      · exact (List.mem_insertIdx hindex).2 (.inr ht)
      · exact find?_insertIdx (beq_self_eq_true name) hfind hindex
      · intro hnodup
        have hperm := (List.perm_insertIdx (⟨id, name, []⟩ : EntryType) p.types hindex).map (·.id)
        refine hperm.nodup_iff.2 (List.nodup_cons.2 ⟨?_, hnodup⟩)
        intro hmem
        obtain ⟨t, ht, heq⟩ := List.mem_map.1 hmem
        have hunused := (lowest_of_gapId? (by decide) hfree).1.2
        exact hunused (List.mem_map.2 ⟨t, ht, congrArg UInt32.toNat heq⟩)

/-- Adding an entry of the next number to the first type of a name changes this type
alone. -/
theorem insert_spec (h : p.types.find? (·.name == name) = some t) {e : Entry}
    (hnext : t.nextId? = some e.id) :
    p.Grows (p.insert name e) ∧
      { t with entries := t.entries ++ [e] } ∈ (p.insert name e).types ∧
      (p.insert name e).types.map (·.id) = p.types.map (·.id) := by
  obtain ⟨before, after, htypes, hinsert⟩ := FirstMatch.modify_of_find?_some h (·.insert e)
  replace hinsert : (p.insert name e).types =
      before ++ { t with entries := t.entries ++ [e] } :: after := by
    rw [← EntryType.insert_of_nextId? hnext rfl]
    exact hinsert
  refine ⟨⟨rfl, rfl, ?_⟩, ?_, ?_⟩
  · intro t' ht'
    rw [htypes] at ht'
    rw [hinsert]
    rcases List.mem_append.1 ht' with ht' | ht'
    · exact ⟨t', List.mem_append_left _ ht', .refl t'⟩
    · rcases List.mem_cons.1 ht' with rfl | ht'
      · exact ⟨_, List.mem_append_right _ List.mem_cons_self, rfl, rfl, List.prefix_append _ _⟩
      · exact ⟨t', List.mem_append_right _ (List.mem_cons_of_mem _ ht'), .refl t'⟩
  · rw [hinsert]
    exact List.mem_append_right _ List.mem_cons_self
  · rw [hinsert, htypes]
    simp only [List.map_append, List.map_cons]

end Package

/-! ## Allocators -/

namespace Allocator

/-- An allocator and what it has become by calls. -/
structure Grows (a a' : Allocator) : Prop where
  /-- The first package has grown. -/
  package : a.package.Grows a'.package
  /-- The other packages stay. -/
  others_eq : a'.others = a.others

/-- No two packages have the same number, nor have two types of the first package. -/
structure Distinct (a : Allocator) : Prop where
  /-- The numbers of the packages are all different. -/
  packages : a.table.packageIds.Nodup
  /-- The numbers of the types in the first package are all different. -/
  types : (a.package.types.map (·.id)).Nodup

variable {a a' a'' : Allocator} {i : Id} {e : Entry}

theorem Grows.refl (a : Allocator) : a.Grows a := ⟨.refl _, rfl⟩

theorem Grows.trans (h : a.Grows a') (h' : a'.Grows a'') : a.Grows a'' :=
  ⟨h.package.trans h'.package, h'.others_eq.trans h.others_eq⟩

theorem Grows.packageIds_eq (h : a.Grows a') : a'.table.packageIds = a.table.packageIds := by
  show a'.package.id :: a'.others.map (·.id) = a.package.id :: a.others.map (·.id)
  rw [h.package.id_eq, h.others_eq]

/-- A table keeps its ids while it grows. -/
theorem Grows.mem_ids (h : a.Grows a') (hi : i ∈ a.table.ids) : i ∈ a'.table.ids := by
  obtain ⟨package, hpackage, type, htype, entry, hentry, hid⟩ := Table.mem_ids.1 hi
  rcases List.mem_cons.1 hpackage with rfl | hpackage
  · obtain ⟨type', htype', hgrows⟩ := h.package.types type htype
    rw [← h.package.id_eq, ← hgrows.id_eq] at hid
    exact Table.mem_ids.2 ⟨a'.package, List.mem_cons_self, type', htype', entry,
      hgrows.entries.subset hentry, hid⟩
  · rw [← h.others_eq] at hpackage
    exact Table.mem_ids.2
      ⟨package, List.mem_cons_of_mem _ hpackage, type, htype, entry, hentry, hid⟩

/-- An id of the first package leads into the type that it names. -/
theorem Distinct.entry?_eq (ha : a.Distinct) {type : EntryType} (htype : type ∈ a.package.types)
    (hp : i.package = a.package.id) (ht : i.type = type.id) :
    a.table.entry? i = type.entries.find? (·.id = i.entry) :=
  Table.entry?_eq ha.packages List.mem_cons_self ha.types htype hp ht

/-- What an id leads to stays there while the table grows. -/
theorem Grows.entry?_eq (h : a.Grows a') (ha : a.Distinct) (ha' : a'.Distinct)
    (he : a.table.entry? i = some e) : Table.entry? a'.table i = some e := by
  by_cases hp : i.package = a.package.id
  · obtain ⟨package, hpackage, type, htype, hp', ht⟩ := Table.mem_of_entry? he
    -- The other packages have other numbers, so the id leads into the first.
    have hfirst : package = a.package := by
      rcases List.mem_cons.1 hpackage with rfl | hothers
      · rfl
      · have hnew := (List.nodup_cons.1 ha.packages).1
        exact absurd (List.mem_map.2 ⟨package, hothers, hp'.symm.trans hp⟩) hnew
    subst hfirst
    obtain ⟨type', htype', hgrows⟩ := h.package.types type htype
    rw [ha.entry?_eq htype hp ht] at he
    rw [ha'.entry?_eq htype' (hp.trans h.package.id_eq.symm) (ht.trans hgrows.id_eq.symm)]
    obtain ⟨rest, hrest⟩ := hgrows.entries
    rw [← hrest, List.find?_append, he, Option.some_or]
  · have hp' : i.package ≠ a'.package.id := h.package.id_eq ▸ hp
    rw [table, Table.entry?_cons_of_ne hp] at he
    rw [table, Table.entry?_cons_of_ne hp', h.others_eq]
    exact he

/-! ## One call -/

/-- What a call can do: nothing, or make a type, or give an id and add the entry. -/
theorem add_cases (a : Allocator) (type : String) (e : Entry) :
    (∃ fault, a.add type e = (.error fault, a)) ∨
      ∃ t package, a.package.withType? type = .ok (t, package) ∧
        ((∃ fault, a.add type e = (.error fault, { a with package })) ∨
          ∃ entryId i, t.nextId? = some entryId ∧ Id.compose? package.id t.id entryId = .ok i ∧
            a.add type e =
              (.ok i, { a with package := package.insert type { e with id := entryId } })) := by
  simp only [add]
  split
  · exact .inl ⟨_, rfl⟩
  · rename_i t package htype
    refine .inr ⟨t, package, htype, ?_⟩
    split
    · exact .inl ⟨_, rfl⟩
    · rename_i entryId hentry
      split
      · exact .inl ⟨_, rfl⟩
      · rename_i i hid
        exact .inr ⟨entryId, i, hentry, hid, rfl⟩

/-- What a call that adds an entry comes to. -/
structure Adds (a : Allocator) (e : Entry) (result : Except BundleError Id) (a' : Allocator) :
    Prop where
  /-- Nothing is lost. -/
  grows : a.Grows a'
  /-- The numbers stay different. -/
  distinct : a'.Distinct
  /-- The id was free before. -/
  fresh : ∀ i, result = .ok i → i ∉ a.table.ids
  /-- The id is taken afterwards. -/
  taken : ∀ i, result = .ok i → i ∈ a'.table.ids
  /-- The id leads to the entry, under its number. -/
  found : ∀ i, result = .ok i → Table.entry? a'.table i = some { e with id := i.entry }

/-- What a call comes to after growth, it comes to from before it. -/
theorem Adds.of_grows {result : Except BundleError Id} (hgrows : a.Grows a')
    (h : a'.Adds e result a'') : a.Adds e result a'' where
  grows := hgrows.trans h.grows
  distinct := h.distinct
  fresh := fun i hi hmem => h.fresh i hi (hgrows.mem_ids hmem)
  taken := h.taken
  found := h.found

/-- A call that fails and changes nothing gives no id. -/
theorem adds_of_error (ha : a.Distinct) (e : Entry) (fault : BundleError) :
    a.Adds e (.error fault) a := by
  refine ⟨.refl a, ha, ?_, ?_, ?_⟩
  · intro i hi
    cases hi
  · intro i hi
    cases hi
  · intro i hi
    cases hi

/-- An id whose number is above all in its type is free. -/
theorem fresh_of_nextId? (ha : a.Distinct) {t : EntryType} (ht : t ∈ a.package.types)
    {entryId : UInt32} (hnext : t.nextId? = some entryId)
    (hi : Id.compose? a.package.id t.id entryId = .ok i) : i ∉ a.table.ids := by
  intro hmem
  obtain ⟨hp, htype, hentry⟩ := Id.parts_of_compose? hi
  obtain ⟨package, hpackage, t', ht', entry, hentry', hi'⟩ := Table.mem_ids.1 hmem
  obtain ⟨hp', htype', hentryId⟩ := Id.parts_of_compose? hi'
  rcases List.mem_cons.1 hpackage with rfl | hothers
  · -- Both types have the number that the id names, so they are the same.
    have hfilter := Table.filter_key_eq ha.types ht
    have hsame : t' ∈ [t] := by
      rw [← hfilter]
      exact List.mem_filter.2 ⟨ht', decide_eq_true (htype'.symm.trans htype)⟩
    rw [List.mem_singleton.1 hsame] at hentry'
    have hlt := EntryType.lt_nextId? hnext hentry'
    rw [← hentry, hentryId] at hlt
    exact UInt32.lt_irrefl _ hlt
  · have hnew := (List.nodup_cons.1 ha.packages).1
    exact hnew (List.mem_map.2 ⟨package, hothers, hp'.symm.trans hp⟩)

/-- Putting an entry into a type that is there gives the id of the next number. -/
theorem adds_insert (ha : a.Distinct) {type : String} {t : EntryType}
    (hfind : a.package.types.find? (·.name == type) = some t) {entryId : UInt32}
    (hnext : t.nextId? = some entryId) (hi : Id.compose? a.package.id t.id entryId = .ok i)
    (e : Entry) :
    a.Adds e (.ok i) { a with package := a.package.insert type { e with id := entryId } } := by
  obtain ⟨hinsert, hmem, hids⟩ :=
    Package.insert_spec (e := { e with id := entryId }) hfind hnext
  have hgrows : a.Grows { a with package := a.package.insert type { e with id := entryId } } :=
    ⟨hinsert, rfl⟩
  have hdistinct : Distinct { a with package := a.package.insert type { e with id := entryId } } :=
    ⟨hgrows.packageIds_eq ▸ ha.packages, hids ▸ ha.types⟩
  obtain ⟨hp, ht, hentry⟩ := Id.parts_of_compose? hi
  refine ⟨hgrows, hdistinct, ?_, ?_, ?_⟩
  · intro j hj
    cases hj
    exact fresh_of_nextId? ha (List.mem_of_find?_eq_some hfind) hnext hi
  · intro j hj
    cases hj
    refine Table.mem_ids.2 ⟨_, List.mem_cons_self, _, hmem, { e with id := entryId }, ?_, hi⟩
    exact List.mem_append_right _ List.mem_cons_self
  · intro j hj
    cases hj
    have hnone : t.entries.find? (·.id = entryId) = none := by
      rw [List.find?_eq_none]
      intro entry hmem' heq
      have hlt := EntryType.lt_nextId? hnext hmem'
      rw [of_decide_eq_true heq] at hlt
      exact UInt32.lt_irrefl _ hlt
    rw [hdistinct.entry?_eq hmem hp ht, hentry, List.find?_append, hnone, Option.none_or]
    exact List.find?_cons_of_pos (decide_eq_true rfl)

/-- One call adds its entry under an id that was free. -/
theorem adds_add (ha : a.Distinct) (type : String) (e : Entry) :
    a.Adds e (a.add type e).1 (a.add type e).2 := by
  rcases a.add_cases type e with ⟨fault, h⟩ | ⟨t, package, htype, h⟩
  · rw [h]
    exact adds_of_error ha e fault
  -- The type is there now, and the call goes on from this.
  obtain ⟨hgrows, hfind, htypes⟩ := Package.withType?_spec htype
  have hmiddle : a.Grows { a with package } := ⟨hgrows, rfl⟩
  have hdistinct : Distinct { a with package } :=
    ⟨hmiddle.packageIds_eq ▸ ha.packages, htypes ha.types⟩
  rcases h with ⟨fault, h⟩ | ⟨entryId, i, hnext, hi, h⟩
  · rw [h]
    exact (adds_of_error hdistinct e fault).of_grows hmiddle
  · rw [h]
    exact (adds_insert hdistinct hfind hnext hi e).of_grows hmiddle

/-! ## Runs of calls -/

/-- A call of an allocator. -/
inductive Call where
  /-- An entry is added to a type. -/
  | entry (type : String) (e : Entry)
  /-- An XML document of the module is added. -/
  | xml (name : String) (path : Path)

/-- The entry that a call adds. -/
def Call.toEntry : Call → Entry
  | entry _ e => e
  | xml name path => .file name path .xml

/-- Carries out a call. -/
def call (a : Allocator) : Call → Except BundleError Id × Allocator
  | .entry type e => a.add type e
  | .xml name path => a.addXml name path

/-- Carries out calls in order, with the result of each. -/
def run (a : Allocator) : List Call → List (Except BundleError Id) × Allocator
  | [] => ([], a)
  | c :: cs => ((a.call c).1 :: (run (a.call c).2 cs).1, (run (a.call c).2 cs).2)

/-- The ids among the results of calls. -/
def given (results : List (Except BundleError Id)) : List Id := results.filterMap (·.toOption)

theorem mem_given {results : List (Except BundleError Id)} :
    i ∈ given results ↔ .ok i ∈ results := by
  rw [given, List.mem_filterMap]
  constructor
  · rintro ⟨result, hresult, hi⟩
    cases result with
    | error fault => cases hi
    | ok j =>
      cases hi
      exact hresult
  · intro h
    exact ⟨.ok i, h, rfl⟩

theorem adds_call (ha : a.Distinct) (c : Call) : a.Adds c.toEntry (a.call c).1 (a.call c).2 := by
  cases c with
  | entry type e => exact adds_add ha type e
  | xml name path => exact adds_add ha "xml" (.file name path .xml)

/-- The calls after the first ones go on where these ended. -/
theorem run_append (a : Allocator) (cs ds : List Call) :
    a.run (cs ++ ds) = ((a.run cs).1 ++ ((a.run cs).2.run ds).1, ((a.run cs).2.run ds).2) := by
  induction cs generalizing a with
  | nil => rfl
  | cons c cs ih => rw [List.cons_append, run, ih, run, List.cons_append]

theorem length_run (a : Allocator) (cs : List Call) : (a.run cs).1.length = cs.length := by
  induction cs generalizing a with
  | nil => rfl
  | cons c cs ih => rw [run, List.length_cons, ih, List.length_cons]

/-- Nothing is lost in a run, and the numbers stay different. -/
theorem grows_run (ha : a.Distinct) (cs : List Call) :
    a.Grows (a.run cs).2 ∧ (a.run cs).2.Distinct := by
  induction cs generalizing a with
  | nil => exact ⟨.refl a, ha⟩
  | cons c cs ih =>
    have hc := adds_call ha c
    obtain ⟨hgrows, hdistinct⟩ := ih hc.distinct
    exact ⟨hc.grows.trans hgrows, hdistinct⟩

/-- The ids that a run gives were free before it. -/
theorem fresh_run (ha : a.Distinct) {cs : List Call} (hi : i ∈ given (a.run cs).1) :
    i ∉ a.table.ids := by
  rw [mem_given] at hi
  induction cs generalizing a with
  | nil => cases hi
  | cons c cs ih =>
    have hc := adds_call ha c
    rcases List.mem_cons.1 hi with hi | hi
    · exact hc.fresh i hi.symm
    · exact fun hmem => ih hc.distinct hi (hc.grows.mem_ids hmem)

/-- The ids that a run gives are all different. -/
theorem nodup_run (ha : a.Distinct) (cs : List Call) : (given (a.run cs).1).Nodup := by
  induction cs generalizing a with
  | nil => exact List.nodup_nil
  | cons c cs ih =>
    have hc := adds_call ha c
    have hrest := ih hc.distinct
    rw [run]
    cases hresult : (a.call c).1 with
    | error fault => exact hrest
    | ok i =>
      refine List.nodup_cons.2 ⟨?_, hrest⟩
      intro hi
      exact fresh_run hc.distinct hi (hc.taken i hresult)

/-- Each id that a run gives leads to its entry at the end. -/
theorem found_run (ha : a.Distinct) {cs : List Call} {c : Call}
    (h : (c, .ok i) ∈ cs.zip (a.run cs).1) :
    Table.entry? (a.run cs).2.table i = some { c.toEntry with id := i.entry } := by
  induction cs generalizing a with
  | nil => cases h
  | cons d ds ih =>
    have hd := adds_call ha d
    rw [run, List.zip_cons_cons] at h
    rcases List.mem_cons.1 h with h | h
    · obtain ⟨rfl, hresult⟩ := Prod.mk.injEq .. ▸ h
      obtain ⟨hgrows, hdistinct⟩ := grows_run hd.distinct ds
      exact hgrows.entry?_eq hd.distinct hdistinct (hd.found i hresult.symm)
    · exact ih hd.distinct h

/-- An allocator that starts with numbers that are all different keeps all that
is there at any time of a run, and gives ids that are new, different, and lead
to their entries. -/
theorem run_allocates {t : Table} (hpackages : t.packageIds.Nodup)
    (htypes : ∀ p ∈ t.packages.head?, (p.types.map (·.id)).Nodup) {a : Allocator}
    (ha : ofTable? t = .ok a) (cs : List Call) :
    (given (a.run cs).1).Nodup ∧
    (∀ i ∈ given (a.run cs).1, i ∉ t.ids) ∧
    ((a.run cs).2.package.types.map (·.id)).Nodup ∧
    (∀ count, (a.run (cs.take count)).2.Grows (a.run cs).2 ∧
      ∀ i e, Table.entry? (a.run (cs.take count)).2.table i = some e →
        Table.entry? (a.run cs).2.table i = some e) ∧
    (a.run cs).1.length = cs.length ∧
    ∀ c i, (c, .ok i) ∈ cs.zip (a.run cs).1 →
      Table.entry? (a.run cs).2.table i = some { c.toEntry with id := i.entry } := by
  obtain ⟨htable, hdistinct⟩ : a.table = t ∧ a.Distinct := by
    obtain ⟨packages⟩ := t
    cases packages with
    | nil => cases ha
    | cons package others =>
      cases ha
      exact ⟨rfl, hpackages, htypes package rfl⟩
  subst htable
  obtain ⟨hgrows, hlast⟩ := grows_run hdistinct cs
  refine ⟨nodup_run hdistinct cs, fun i hi => fresh_run hdistinct hi, hlast.types, ?_,
    length_run a cs, fun c i => found_run hdistinct⟩
  intro count
  have hfirst := (grows_run hdistinct (cs.take count)).2
  have hrest := (grows_run hfirst (cs.drop count)).1
  have hrun : ((a.run (cs.take count)).2.run (cs.drop count)).2 = (a.run cs).2 := by
    have happend := congrArg Prod.snd (run_append a (cs.take count) (cs.drop count))
    rw [List.take_append_drop] at happend
    exact happend.symm
  rw [hrun] at hrest
  exact ⟨hrest, fun i e he => hrest.entry?_eq hfirst hlast he⟩

/-- A package whose types do not stand in order, with a gap between their
numbers and one type that is full. -/
def gapPackage : Package :=
  let last : Entry := { id := 0xffff, name := "last", values := [] }
  let blob : Entry := { id := 4, name := "blob", values := [] }
  { id := 0x7f, name := "app"
    types := [{ id := 3, name := "xml", entries := [last] },
      { id := 1, name := "raw", entries := [blob] }] }

/-- A call that fails, one that goes on in a type, and one that makes a type in the gap. -/
def gapCalls : List Call :=
  [.xml "splits" .root, .entry "raw" { name := "data", values := [] },
    .entry "layout" { name := "main", values := [] }]

theorem run_allocates_gapPackage :
    let outcome := Allocator.run ⟨gapPackage, []⟩ gapCalls
    (given outcome.1).map (·.word) = [0x7f010005, 0x7f020000] ∧ (given outcome.1).Nodup ∧
      (∀ i ∈ given outcome.1, i ∉ Table.ids ⟨[gapPackage]⟩) ∧
      (outcome.2.package.types.map (·.id)).Nodup := by
  have htypes : ∀ p ∈ [gapPackage].head?, (p.types.map (·.id)).Nodup := by
    intro p hp
    cases hp
    decide
  obtain ⟨hnodup, hfresh, hids, -⟩ :=
    @run_allocates ⟨[gapPackage]⟩ (by decide) htypes _ rfl gapCalls
  exact ⟨by decide +kernel, hnodup, hfresh, hids⟩

end Allocator

end AppBundle.Resource
