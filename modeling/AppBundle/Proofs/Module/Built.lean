import AppBundle.Module.Remap
import AppBundle.Proofs.Module.Content

/-!
# Modules that were built

A module comes out of a draft, or out of another module that moved.
`Draft.Reachable` lists the ways to a draft, and `Module.Built` says that a
module came out of one of them.

What such a module has and an arbitrary value of the type may lack is that every
entry stands under its own path (`Module.Built.path_eq`) and none at a well-known
one (`Module.Built.plain`): an entry that is added comes in under the path that it
has, after a look at that path, and one that is replaced keeps its path.
-/

namespace AppBundle

open Resource

/-! ## Entries under their own paths -/

/-- The entries with these put in, each under its own path. -/
def Entries.insertAll (es : Entries) (documents : List Entry) : Entries :=
  documents.foldl (fun es e => es.insert e.path e) es

theorem Entries.insertAll_cons (es : Entries) (f : Entry) (fs : List Entry) :
    es.insertAll (f :: fs) = Entries.insertAll (OrderedMap.insert f.path f es) fs := rfl

/-- Every entry stands under its own path. -/
def Entries.Keyed (es : Entries) : Prop := ∀ p e, es.get? p = some e → e.path = p

namespace Entries.Keyed

variable {es : Entries}

theorem insert (h : es.Keyed) (e : Entry) : Entries.Keyed (OrderedMap.insert e.path e es) := by
  intro p f hf
  rw [OrderedMap.get?_insert] at hf
  split at hf
  · cases hf
    exact Eq.symm ‹_›
  · exact h p f hf

theorem erase (h : es.Keyed) (p : Path) : Entries.Keyed (OrderedMap.erase p es) := by
  intro q f hf
  rw [OrderedMap.get?_erase] at hf
  split at hf
  · cases hf
  · exact h q f hf

theorem insertAll {fs : List Entry} {es : Entries} (h : es.Keyed) :
    (es.insertAll fs).Keyed := by
  induction fs generalizing es with
  | nil => exact h
  | cons f fs ih => exact ih (h.insert f)

end Entries.Keyed

/-- No entry stands at a well-known path. -/
def Entries.Plain (es : Entries) : Prop :=
  ∀ p e, es.get? p = some e → WellKnown.ofPath? p = none

namespace Entries.Plain

variable {es : Entries}

theorem insert (h : es.Plain) {e : Entry} (he : WellKnown.ofPath? e.path = none) :
    Entries.Plain (OrderedMap.insert e.path e es) := by
  intro p f hf
  rw [OrderedMap.get?_insert] at hf
  split at hf
  · rename_i hp
    rwa [hp]
  · exact h p f hf

theorem erase (h : es.Plain) (p : Path) : Entries.Plain (OrderedMap.erase p es) := by
  intro q f hf
  rw [OrderedMap.get?_erase] at hf
  split at hf
  · cases hf
  · exact h q f hf

theorem insertAll {fs : List Entry} {es : Entries} (h : es.Plain)
    (hfs : ∀ f ∈ fs, WellKnown.ofPath? f.path = none) : (es.insertAll fs).Plain := by
  induction fs generalizing es with
  | nil => exact h
  | cons f fs ih =>
    obtain ⟨hf, hfs⟩ := List.forall_mem_cons.1 hfs
    exact ih (h.insert hf) hfs

end Entries.Plain

/-! ## Moving a module -/

/-- Moving the references of an entry reads its document and writes the moved one. -/
theorem Entry.moveReferences?_eq_ok_iff {old : List UInt32} {new : UInt32} {e e' : Entry} :
    e.moveReferences? old new = .ok e' ↔ ∃ bytes n bytes', e.content = .ok bytes ∧
      Xml.Binary.decode bytes = .ok n ∧
      Xml.Binary.encode (n.moveReferences old new) = .ok bytes' ∧ e' = e.withBytes bytes' := by
  constructor
  · intro h
    obtain ⟨bytes, hbytes, h⟩ := Step.ok_of_bind h
    split at h
    · cases h
    · rename_i n hread
      split at h
      · cases h
      · rename_i bytes' hwrite
        cases h
        exact ⟨bytes, n, bytes', hbytes, hread, hwrite, rfl⟩
  · rintro ⟨bytes, n, bytes', hbytes, hread, hwrite, rfl⟩
    rw [moveReferences?, Step.bind_ok _ hbytes, hread]
    simp only [hwrite]
    rfl

namespace Module

/-- The module whose table, manifest and listed documents have moved. -/
def withMoved (m : Module) (t : Table) (new : UInt32) (documents : List Entry) : Module :=
  { m with
    configs := { m.configs with table := some ⟨t.packages.map fun p => { p with id := new }⟩ }
    manifest := m.manifest.moveReferences t.packageIds new
    entries := m.entries.insertAll documents }

variable {m m' : Module} {new : UInt32}

theorem move?_of_none (hnew : checkPackageId new = .ok ()) (h : m.configs.table = none) :
    m.move? new = .ok m := by
  rw [move?, Step.bind_ok _ hnew, h]
  rfl

/-- The steps of moving a module that has a table. -/
theorem move?_of_some (hnew : checkPackageId new = .ok ()) {t : Table}
    (h : m.configs.table = some t) :
    m.move? new = t.xmlPaths? >>= fun paths =>
      (paths.toList.filterMap m.entry?).mapM (·.moveReferences? t.packageIds new) >>=
        fun documents => .ok (m.withMoved t new documents) := by
  have htable : t.move? new = .ok ⟨t.packages.map fun p => { p with id := new }⟩ := by
    rw [Table.move?, Step.bind_ok _ hnew]
    rfl
  rw [move?, Step.bind_ok _ hnew, h]
  simp only
  rw [Step.bind_ok _ htable]
  rfl

/-- A module that moved is the same, or some of its entries have been replaced. -/
theorem ok_of_move? (h : m.move? new = .ok m') :
    m' = m ∨ ∃ t documents, m.configs.table = some t ∧ m' = m.withMoved t new documents ∧
      ∀ f ∈ documents, ∃ p e, m.entry? p = some e ∧ f.path = e.path := by
  obtain ⟨_, hnew, -⟩ := Step.ok_of_bind h
  cases htable : m.configs.table with
  | none =>
    rw [move?_of_none hnew htable] at h
    cases h
    exact .inl rfl
  | some t =>
    rw [move?_of_some hnew htable] at h
    obtain ⟨paths, -, h⟩ := Step.ok_of_bind h
    obtain ⟨documents, hdocuments, h⟩ := Step.ok_of_bind h
    cases h
    refine .inr ⟨t, documents, rfl, rfl, ?_⟩
    intro f hf
    obtain ⟨e, he, hmove⟩ := (Step.mem_of_mapM hdocuments).1 hf
    obtain ⟨p, -, he⟩ := List.mem_filterMap.1 he
    obtain ⟨_, _, bytes, -, -, -, rfl⟩ := Entry.moveReferences?_eq_ok_iff.1 hmove
    exact ⟨p, e, he, rfl⟩

end Module

/-! ## Drafts -/

/-- The drafts that can come up, each with the step that led to it. -/
inductive Draft.Reachable : Draft → Prop where
  /-- A draft starts with a name and the settings of the bundle. -/
  | start (name : String) (context : Context) : Reachable { name, context }
  /-- An entry is added. -/
  | add {d d' : Draft} {e : Entry} : Reachable d → d.add? e = .ok d' → Reachable d'
  /-- An entry is dropped. -/
  | erase {d : Draft} (p : Path) : Reachable d → Reachable (d.erase p)
  /-- The configurations change. -/
  | configure {d : Draft} (f : Configs → Configs) : Reachable d → Reachable (d.configure f)
  /-- The manifest is given. -/
  | setManifest {d : Draft} (m : Manifest) : Reachable d → Reachable { d with manifest := some m }
  /-- The draft of a module that moved is taken up again. -/
  | move {m m' : Module} {new : UInt32} :
    Reachable m.toDraft → m.move? new = .ok m' → Reachable m'.toDraft

/-- A module that was built, or that moved after it was. -/
def Module.Built (m : Module) : Prop := ∃ d : Draft, d.Reachable ∧ d.build? = .ok m

namespace Draft

theorem keyed_of_add? {d d' : Draft} {e : Entry} (hd : d.entries.Keyed)
    (h : d.add? e = .ok d') : d'.entries.Keyed := by
  rcases ok_of_add? h with ⟨-, rfl⟩ | ⟨known, bytes, c, -, -, -, rfl⟩
  · exact hd.insert e
  · rw [entries_setContent]
    exact hd

theorem plain_of_add? {d d' : Draft} {e : Entry} (hd : d.entries.Plain)
    (h : d.add? e = .ok d') : d'.entries.Plain := by
  rcases ok_of_add? h with ⟨hplain, rfl⟩ | ⟨known, bytes, c, -, -, -, rfl⟩
  · exact hd.insert hplain
  · rw [entries_setContent]
    exact hd

/-- An entry that is no file of the bundle's own can always be added. -/
theorem Reachable.insert {d : Draft} {e : Entry} (h : WellKnown.ofPath? e.path = none)
    (hd : d.Reachable) : (d.insert e).Reachable :=
  .add hd (show d.add? e = .ok (d.insert e) by rw [add?, h])

/-- In a draft that comes up every entry stands under its own path. -/
theorem Reachable.keyed {d : Draft} (h : d.Reachable) : d.entries.Keyed := by
  induction h with
  | start name context =>
    intro p e he
    cases he
  | add _ hadd ih => exact keyed_of_add? ih hadd
  | erase p _ ih => exact ih.erase p
  | configure f _ ih => exact ih
  | setManifest m _ ih => exact ih
  | move _ hmove ih =>
    rcases Module.ok_of_move? hmove with rfl | ⟨t, documents, -, rfl, -⟩
    · exact ih
    · exact ih.insertAll

/-- In a draft that comes up no entry stands at a well-known path. -/
theorem Reachable.plain {d : Draft} (h : d.Reachable) : d.entries.Plain := by
  induction h with
  | start name context =>
    intro p e he
    cases he
  | add _ hadd ih => exact plain_of_add? ih hadd
  | erase p _ ih => exact ih.erase p
  | configure f _ ih => exact ih
  | setManifest m _ ih => exact ih
  | move hm hmove ih =>
    rcases Module.ok_of_move? hmove with rfl | ⟨t, documents, -, rfl, hdocuments⟩
    · exact ih
    · refine ih.insertAll fun f hf => ?_
      -- A replaced entry stands where the old one stood, which was a plain path.
      obtain ⟨p, e, he, hpath⟩ := hdocuments f hf
      rw [hpath, hm.keyed p e he]
      exact ih p e he

/-- The draft that a module is built from is the draft it came out of. -/
theorem toDraft_of_build? {d : Draft} {m : Module} (h : d.build? = .ok m) : m.toDraft = d := by
  simp only [build?] at h
  split at h
  · split at h
    · rename_i hmanifest
      cases h
      obtain ⟨contents, manifest⟩ := d
      cases hmanifest
      rfl
    · cases h
  · cases h

end Draft

namespace Module.Built

variable {m m' : Module}

/-- The draft of a module that was built can come up. -/
theorem reachable_toDraft (h : m.Built) : m.toDraft.Reachable := by
  obtain ⟨d, hd, hbuild⟩ := h
  rwa [Draft.toDraft_of_build? hbuild]

/-- In a module that was built every entry stands under its own path. -/
theorem path_eq (h : m.Built) {p : Path} {e : Entry} (he : m.entry? p = some e) : e.path = p :=
  h.reachable_toDraft.keyed p e he

/-- In a module that was built no entry stands at a well-known path. -/
theorem plain (h : m.Built) : m.entries.Plain := h.reachable_toDraft.plain

/-- A module that moved can be built from its draft. -/
theorem move (h : m.Built) {new : UInt32} (hmove : m.move? new = .ok m') : m'.Built := by
  obtain ⟨d, hd, hbuild⟩ := h
  have hdraft := Draft.toDraft_of_build? hbuild
  have hname : m'.name = m.name := by
    rcases ok_of_move? hmove with rfl | ⟨t, documents, -, rfl, -⟩ <;> rfl
  refine ⟨m'.toDraft, .move (hdraft ▸ hd) hmove, ?_⟩
  rw [← hdraft, Draft.build?] at hbuild
  split at hbuild
  · rename_i hidentifier
    exact if_pos (hname ▸ hidentifier)
  · cases hbuild

end Module.Built

end AppBundle
