import AppBundle.Proofs.Module.Built
import AppBundle.Proofs.Xml.Binary.Decoded
import AppBundle.Proofs.Xml.Binary.Limits

/-!
# Moving a module is exact

Moving a module to another package number changes its table, its manifest and
the documents that its table lists, and nothing else.  `Module.MovesTo` says
what each of them becomes.  A document is read, changed and written again; what
was read is canonical and stays so when its references move, hence the new bytes
are read back as the changed document (`Entry.follows_of_moveReferences?`).

An error comes from a file of the table that is no path, or from a listed
document that is there.  When all paths are good, all bytes are at hand and no
size is exceeded, only documents that cannot be read are left.
-/

namespace AppBundle

open Resource Xml

/-! ## Listed documents -/

namespace Resource.Table

/-- The table lists an XML document whose path, as text, leads to this one. -/
def ListsXml (t : Table) (p : Path) : Prop :=
  ∃ text, (text, FileKind.xml) ∈ t.files ∧ Path.ofText? text = .ok p

variable {t : Table}

theorem mem_xmlFiles {f : String × FileKind} :
    f ∈ t.files.filter (fun f => f.2 == .xml) ↔ (f.1, FileKind.xml) ∈ t.files ∧ f.2 = .xml := by
  obtain ⟨text, kind⟩ := f
  rw [List.mem_filter, beq_iff_eq]
  constructor
  · rintro ⟨hf, rfl⟩
    exact ⟨hf, rfl⟩
  · rintro ⟨hf, rfl⟩
    exact ⟨hf, rfl⟩

theorem mem_xmlPaths? {paths : OrderedSet Path} (h : t.xmlPaths? = .ok paths) {p : Path} :
    p ∈ paths ↔ t.ListsXml p := by
  obtain ⟨ps, hps, rfl⟩ := Step.ok_of_map h
  rw [OrderedSet.mem_ofList, Step.mem_of_mapM hps]
  constructor
  · rintro ⟨f, hf, hp⟩
    exact ⟨f.1, (mem_xmlFiles.1 hf).1, hp⟩
  · rintro ⟨text, htext, hp⟩
    exact ⟨(text, .xml), mem_xmlFiles.2 ⟨htext, rfl⟩, hp⟩

theorem error_of_xmlPaths? {e : BundleError} (h : t.xmlPaths? = .error e) :
    ∃ text, (text, FileKind.xml) ∈ t.files ∧ Path.ofText? text = .error e := by
  obtain ⟨f, hf, he⟩ := Step.error_of_mapM (Step.error_of_map h)
  exact ⟨f.1, (mem_xmlFiles.1 hf).1, he⟩

end Resource.Table

/-! ## One document -/

/-- A document that was read is read back with its references moved. -/
theorem Xml.Binary.decode_encode_moveReferences {old : List UInt32} {new : UInt32} {n : Node}
    {bytes bytes' : Bytes} (hread : decode bytes = .ok n)
    (hwrite : encode (n.moveReferences old new) = .ok bytes') :
    decode bytes' = .ok (n.moveReferences old new) := by
  have hmoved := (canonical_of_decode hread).moveReferences old new
  cases hn : n.moveReferences old new with
  | text text =>
    rw [hn] at hmoved
    cases hmoved.isElement
  | element tag children =>
    rw [hn] at hmoved hwrite
    exact decode_encode_element hmoved.tags hwrite

/-- An entry and what becomes of it when the references of its document move. -/
structure Entry.Follows (old : List UInt32) (new : UInt32) (e e' : Entry) : Prop where
  /-- The path stays. -/
  path_eq : e'.path = e.path
  /-- A directory stays one. -/
  isDirectory_eq : e'.isDirectory = e.isDirectory
  /-- The way of compression stays. -/
  uncompressed_eq : e'.uncompressed = e.uncompressed
  /-- The new bytes hold the document of the old ones with its references moved. -/
  document : ∃ bytes bytes' n, e.content = .ok bytes ∧ Binary.decode bytes = .ok n ∧
    e'.content = .ok bytes' ∧ Binary.decode bytes' = .ok (n.moveReferences old new)

namespace Entry

variable {old : List UInt32} {new : UInt32} {e e' : Entry}

theorem follows_of_moveReferences? (h : e.moveReferences? old new = .ok e') :
    e.Follows old new e' := by
  obtain ⟨bytes, n, bytes', hbytes, hread, hwrite, rfl⟩ := moveReferences?_eq_ok_iff.1 h
  exact ⟨rfl, rfl, rfl, bytes, bytes', n, hbytes, hread, rfl,
    Binary.decode_encode_moveReferences hread hwrite⟩

/-- Moving the references of an entry fails for want of its bytes, because they
hold no document, or because the new document does not fit. -/
theorem error_of_moveReferences? {f : BundleError} (h : e.moveReferences? old new = .error f) :
    e.content = .error f ∨ ∃ bytes, e.content = .ok bytes ∧
      ((∃ fault, Binary.decode bytes = .error fault ∧
          f = .decode (some e.path.toText) (.xml fault)) ∨
        ∃ n fault, Binary.decode bytes = .ok n ∧
          Binary.encode (n.moveReferences old new) = .error fault ∧ fault.IsLimit) := by
  rcases Step.error_of_bind h with h | ⟨bytes, hbytes, h⟩
  · exact .inl h
  · refine .inr ⟨bytes, hbytes, ?_⟩
    split at h
    · rename_i fault hread
      cases h
      exact .inl ⟨fault, hread, rfl⟩
    · rename_i n hread
      split at h
      · rename_i fault hwrite
        have hmoved := (Binary.canonical_of_decode hread).moveReferences old new
        exact .inr ⟨n, fault, hread, hwrite, Binary.isLimit_of_encode hmoved.isElement hwrite⟩
      · cases h

end Entry

/-! ## Replacing entries -/

namespace Entries

variable {es : Entries} {documents : List Entry} {p : Path}

theorem get?_insertAll_of_ne (h : ∀ f ∈ documents, f.path ≠ p) :
    (es.insertAll documents).get? p = es.get? p := by
  induction documents generalizing es with
  | nil => rfl
  | cons f fs ih =>
    obtain ⟨hf, hfs⟩ := List.forall_mem_cons.1 h
    rw [insertAll_cons, ih hfs, OrderedMap.get?_insert, if_neg (Ne.symm hf)]

/-- A replaced path has one of the documents that stand for it. -/
theorem get?_insertAll_of_eq (h : ∃ f ∈ documents, f.path = p) :
    ∃ f ∈ documents, f.path = p ∧ (es.insertAll documents).get? p = some f := by
  induction documents generalizing es with
  | nil =>
    obtain ⟨f, hf, -⟩ := h
    cases hf
  | cons f fs ih =>
    by_cases hlater : ∃ g ∈ fs, g.path = p
    · obtain ⟨g, hg, hpath, hget⟩ := @ih (OrderedMap.insert f.path f es) hlater
      exact ⟨g, List.mem_cons_of_mem _ hg, hpath, hget⟩
    · -- No document after the first stands for the path, so the first does.
      have hne : ∀ g ∈ fs, g.path ≠ p := fun g hg heq => hlater ⟨g, hg, heq⟩
      obtain ⟨g, hg, hpath⟩ := h
      rcases List.mem_cons.1 hg with rfl | hg
      · refine ⟨g, List.mem_cons_self, hpath, ?_⟩
        rw [insertAll_cons, get?_insertAll_of_ne hne, OrderedMap.get?_insert, if_pos hpath.symm]
      · exact absurd hpath (hne g hg)

/-- Replacing entries leaves the paths as they are. -/
theorem keys_insertAll (h : ∀ f ∈ documents, ∃ e, es.get? f.path = some e) :
    (es.insertAll documents).keys = es.keys := by
  induction documents generalizing es with
  | nil => rfl
  | cons f fs ih =>
    obtain ⟨⟨e, he⟩, hfs⟩ := List.forall_mem_cons.1 h
    rw [insertAll_cons, ih, OrderedMap.keys_insert he]
    intro g hg
    rw [OrderedMap.get?_insert]
    split
    · exact ⟨f, rfl⟩
    · exact hfs g hg

/-- Putting in entries that are there already changes nothing. -/
theorem insertAll_eq_self (h : ∀ f ∈ documents, es.get? f.path = some f) :
    es.insertAll documents = es := by
  induction documents with
  | nil => rfl
  | cons f fs ih =>
    obtain ⟨hf, hfs⟩ := List.forall_mem_cons.1 h
    rw [insertAll_cons, OrderedMap.insert_eq_self hf, ih hfs]

end Entries

/-! ## The module -/

/-- A module and what becomes of it when its package gets a new number. -/
structure Module.MovesTo (m : Module) (t : Table) (new : UInt32) (m' : Module) : Prop where
  /-- The name stays. -/
  name_eq : m'.name = m.name
  /-- The settings of the bundle stay. -/
  context_eq : m'.context = m.context
  /-- The table gets the new number for each package, and the other configurations stay. -/
  configs_eq : m'.configs =
    { m.configs with table := some ⟨t.packages.map fun p => { p with id := new }⟩ }
  /-- The references of the manifest move. -/
  manifest_eq : m'.manifest.toNode = m.manifest.toNode.moveReferences t.packageIds new
  /-- There are entries at the same paths. -/
  keys_eq : m'.entries.keys = m.entries.keys
  /-- Each listed document that is there is replaced by the one whose references moved. -/
  listed : ∀ p e, t.ListsXml p → m.entry? p = some e →
    ∃ e', Module.entry? m' p = some e' ∧ e.Follows t.packageIds new e'
  /-- All other paths have what they had. -/
  unlisted : ∀ p, ¬ t.ListsXml p → Module.entry? m' p = m.entry? p

/-- A listed document that is there and cannot be read. -/
def Module.HasFault (m : Module) (t : Table) (p : Path) (fault : CodecError) : Prop :=
  t.ListsXml p ∧ ∃ e bytes, m.entry? p = some e ∧ e.content = .ok bytes ∧
    Binary.decode bytes = .error fault

/-- A module whose move nothing stands in the way of but documents that cannot be read. -/
structure Module.Ready (m : Module) (t : Table) (new : UInt32) : Prop where
  /-- Every path of an XML document in the table is one. -/
  paths : ∀ text, (text, FileKind.xml) ∈ t.files → ∃ p, Path.ofText? text = .ok p
  /-- The bytes of every entry are at hand. -/
  inMemory : ∀ p e, m.entry? p = some e → ∃ bytes, e.content = .ok bytes
  /-- No document exceeds a size or a count when it is written again. -/
  fits : ∀ p e bytes n fault, t.ListsXml p → m.entry? p = some e → e.content = .ok bytes →
    Binary.decode bytes = .ok n →
    Binary.encode (n.moveReferences t.packageIds new) = .error fault → ¬ fault.IsLimit

namespace Module

variable {m m' : Module} {t : Table} {new : UInt32}

/-- The documents to be replaced are the listed ones that are there. -/
theorem mem_documents (hm : m.Built) {paths : OrderedSet Path} (hpaths : t.xmlPaths? = .ok paths)
    {e : Entry} :
    e ∈ paths.toList.filterMap m.entry? ↔ t.ListsXml e.path ∧ m.entry? e.path = some e := by
  rw [List.mem_filterMap]
  constructor
  · rintro ⟨p, hp, he⟩
    rw [hm.path_eq he]
    exact ⟨(Table.mem_xmlPaths? hpaths).1 hp, he⟩
  · rintro ⟨hlisted, he⟩
    exact ⟨e.path, (Table.mem_xmlPaths? hpaths).2 hlisted, he⟩

/-- The documents that replace others come from the listed ones that are there. -/
theorem mem_moved (hm : m.Built) {paths : OrderedSet Path} (hpaths : t.xmlPaths? = .ok paths)
    {documents : List Entry}
    (hdocuments : (paths.toList.filterMap m.entry?).mapM (·.moveReferences? t.packageIds new) =
      .ok documents) {f : Entry} :
    f ∈ documents ↔ ∃ e, t.ListsXml e.path ∧ m.entry? e.path = some e ∧
      e.moveReferences? t.packageIds new = .ok f := by
  simp only [Step.mem_of_mapM hdocuments, mem_documents hm hpaths, and_assoc]

/-- A listed document that is there is replaced by what its move gives. -/
theorem replaced_of_move? (hm : m.Built) (ht : m.configs.table = some t)
    (hnew : checkPackageId new = .ok ()) (h : m.move? new = .ok m') {p : Path} {e : Entry}
    (hlisted : t.ListsXml p) (he : m.entry? p = some e) :
    ∃ e', m'.entry? p = some e' ∧ e.moveReferences? t.packageIds new = .ok e' := by
  rw [move?_of_some hnew ht] at h
  obtain ⟨paths, hpaths, h⟩ := Step.ok_of_bind h
  obtain ⟨documents, hdocuments, h⟩ := Step.ok_of_bind h
  cases h
  obtain rfl := hm.path_eq he
  obtain ⟨f, hf⟩ := Step.ok_of_mem_mapM hdocuments ((mem_documents hm hpaths).2 ⟨hlisted, he⟩)
  have hmem := (mem_moved hm hpaths hdocuments).2 ⟨e, hlisted, he, hf⟩
  have hpath := (Entry.follows_of_moveReferences? hf).path_eq
  obtain ⟨g, hg, hgpath, hget⟩ := @Entries.get?_insertAll_of_eq m.entries _ _ ⟨f, hmem, hpath⟩
  obtain ⟨e', -, he', hmove⟩ := (mem_moved hm hpaths hdocuments).1 hg
  -- Both come from the entry at this path.
  rw [← (Entry.follows_of_moveReferences? hmove).path_eq, hgpath, he] at he'
  cases he'
  exact ⟨g, hget, hmove⟩

theorem movesTo_of_move? (hm : m.Built) (ht : m.configs.table = some t)
    (hnew : checkPackageId new = .ok ()) (h : m.move? new = .ok m') : m.MovesTo t new m' := by
  have hreplaced := fun p e => replaced_of_move? hm ht hnew h (p := p) (e := e)
  rw [move?_of_some hnew ht] at h
  obtain ⟨paths, hpaths, h⟩ := Step.ok_of_bind h
  obtain ⟨documents, hdocuments, h⟩ := Step.ok_of_bind h
  cases h
  refine ⟨rfl, rfl, rfl, rfl, ?_, ?_, ?_⟩
  · refine Entries.keys_insertAll fun f hf => ?_
    obtain ⟨e, -, he, hmove⟩ := (mem_moved hm hpaths hdocuments).1 hf
    rw [(Entry.follows_of_moveReferences? hmove).path_eq]
    exact ⟨e, he⟩
  · intro p e hlisted he
    obtain ⟨e', he', hmove⟩ := hreplaced p e hlisted he
    exact ⟨e', he', Entry.follows_of_moveReferences? hmove⟩
  · intro p hlisted
    refine Entries.get?_insertAll_of_ne fun f hf heq => hlisted ?_
    obtain ⟨e, he, -, hmove⟩ := (mem_moved hm hpaths hdocuments).1 hf
    rwa [← (Entry.follows_of_moveReferences? hmove).path_eq, heq] at he

/-- A move fails for a path of the table that is none, or for a listed document that is there. -/
theorem error_of_move? (hm : m.Built) (ht : m.configs.table = some t)
    (hnew : checkPackageId new = .ok ()) {e : BundleError} (h : m.move? new = .error e) :
    (∃ text, (text, FileKind.xml) ∈ t.files ∧ Path.ofText? text = .error e) ∨
      ∃ p entry, t.ListsXml p ∧ m.entry? p = some entry ∧
        entry.moveReferences? t.packageIds new = .error e := by
  rw [move?_of_some hnew ht] at h
  rcases Step.error_of_bind h with h | ⟨paths, hpaths, h⟩
  · exact .inl (Table.error_of_xmlPaths? h)
  rcases Step.error_of_bind h with h | ⟨documents, -, h⟩
  · obtain ⟨entry, hentry, he⟩ := Step.error_of_mapM h
    obtain ⟨hlisted, hget⟩ := (mem_documents hm hpaths).1 hentry
    exact .inr ⟨entry.path, entry, hlisted, hget, he⟩
  · cases h

/-- A move that nothing else stands in the way of fails for a document that cannot be read. -/
theorem hasFault_of_move? (hm : m.Built) (ht : m.configs.table = some t)
    (hnew : checkPackageId new = .ok ()) (hready : m.Ready t new) {e : BundleError}
    (h : m.move? new = .error e) :
    ∃ p fault, m.HasFault t p fault ∧ e = .decode (some p.toText) (.xml fault) := by
  rcases error_of_move? hm ht hnew h with ⟨text, htext, he⟩ | ⟨p, entry, hlisted, hget, he⟩
  · obtain ⟨p, hp⟩ := hready.paths text htext
    rw [hp] at he
    cases he
  · obtain ⟨bytes, hbytes⟩ := hready.inMemory p entry hget
    rcases Entry.error_of_moveReferences? he with he | ⟨bytes', hbytes', he⟩
    · rw [hbytes] at he
      cases he
    · rcases he with ⟨fault, hread, rfl⟩ | ⟨n, fault, hread, hwrite, hlimit⟩
      · rw [hm.path_eq hget]
        exact ⟨p, fault, ⟨hlisted, entry, bytes', hget, hbytes', hread⟩, rfl⟩
      · exact absurd hlimit (hready.fits p entry bytes' n fault hlisted hget hbytes' hread hwrite)

/-- A document that cannot be read makes the move fail. -/
theorem fails_of_hasFault (hm : m.Built) (ht : m.configs.table = some t)
    (hnew : checkPackageId new = .ok ()) {p : Path} {fault : CodecError}
    (h : m.HasFault t p fault) : ∃ e, m.move? new = .error e := by
  obtain ⟨hlisted, entry, bytes, hget, hbytes, hread⟩ := h
  cases hmove : m.move? new with
  | error e => exact ⟨e, rfl⟩
  | ok m' =>
    obtain ⟨e', -, hfollows⟩ := (movesTo_of_move? hm ht hnew hmove).listed p entry hlisted hget
    obtain ⟨bytes', _, n, hbytes', hread', -⟩ := hfollows.document
    rw [hbytes] at hbytes'
    cases hbytes'
    rw [hread] at hread'
    cases hread'

/-- A module that was built and has a table: what it moves to, where errors come
from, and exactly when the move fails if the module is ready for it.  A listed
document that is not there is never the cause of an error. -/
theorem move?_exact (hm : m.Built) (ht : m.configs.table = some t)
    (hnew : 1 ≤ new.toNat ∧ new.toNat ≤ 0xff) :
    (∀ m', m.move? new = .ok m' → m.MovesTo t new m') ∧
    (∀ e, m.move? new = .error e →
      (∃ text, (text, FileKind.xml) ∈ t.files ∧ Path.ofText? text = .error e) ∨
        ∃ p entry, t.ListsXml p ∧ m.entry? p = some entry ∧
          entry.moveReferences? t.packageIds new = .error e) ∧
    (m.Ready t new →
      ((∃ e, m.move? new = .error e) ↔ ∃ p fault, m.HasFault t p fault) ∧
      ∀ e, m.move? new = .error e →
        ∃ p fault, m.HasFault t p fault ∧ e = .decode (some p.toText) (.xml fault)) := by
  have hcheck : checkPackageId new = .ok () := by
    rw [checkPackageId, if_pos hnew]
  refine ⟨fun m' => movesTo_of_move? hm ht hcheck, fun e => error_of_move? hm ht hcheck, ?_⟩
  intro hready
  refine ⟨⟨?_, ?_⟩, fun e => hasFault_of_move? hm ht hcheck hready⟩
  · rintro ⟨e, h⟩
    obtain ⟨p, fault, hfault, -⟩ := hasFault_of_move? hm ht hcheck hready h
    exact ⟨p, fault, hfault⟩
  · rintro ⟨p, fault, hfault⟩
    exact fails_of_hasFault hm ht hcheck hfault

/-- A table that lists one document twice over, for two configurations. -/
def layoutTable : Table :=
  let main : Resource.Entry :=
    { name := "main"
      values := [⟨"", .file "res/main.xml" .xml⟩, ⟨"land", .file "res/land.xml" .xml⟩] }
  ⟨[{ id := 0x7f, name := "app", types := [{ id := 1, name := "layout", entries := [main] }] }]⟩

/-- The document for the first configuration. -/
def layoutEntry : Entry :=
  .ofBytes ⟨["res", "main.xml"], by decide⟩ Binary.foreignDocument

/-- A module with the table and only one of the two documents. -/
def layoutDraft : Draft :=
  let d : Draft := { name := "base", context := {} }
  let d := (d.insert layoutEntry).configure ({ · with table := some layoutTable })
  { d with manifest := some ⟨{ name := "manifest" }, rfl, rfl⟩ }

theorem reachable_layoutDraft : layoutDraft.Reachable :=
  .setManifest _ (.configure _ (.insert rfl (.start "base" {})))

/-- The same path with bytes that are no document. -/
def brokenEntry : Entry := .ofBytes layoutEntry.path [0x03, 0]

/-- The module with these bytes in place of the document. -/
def brokenDraft : Draft := layoutDraft.insert brokenEntry

theorem reachable_brokenDraft : brokenDraft.Reachable := reachable_layoutDraft.insert rfl

/-- The one entry of the module that comes of the draft. -/
theorem entry?_brokenDraft {m : Module} (h : brokenDraft.build? = .ok m) (p : Path) :
    m.entry? p = if p = layoutEntry.path then some brokenEntry else none := by
  have hentries : m.entries = brokenDraft.entries :=
    congrArg (·.entries) (Draft.toDraft_of_build? h)
  have hfirst : layoutDraft.entries.get? p =
      if p = layoutEntry.path then some layoutEntry else none :=
    OrderedMap.get?_insert ∅ layoutEntry.path layoutEntry p
  have hlast : brokenDraft.entries.get? p =
      if p = layoutEntry.path then some brokenEntry else layoutDraft.entries.get? p :=
    OrderedMap.get?_insert layoutDraft.entries layoutEntry.path brokenEntry p
  unfold entry?
  rw [hentries, hlast, hfirst]
  split <;> rfl

theorem hasFault_brokenDraft {m : Module} (h : brokenDraft.build? = .ok m) :
    m.HasFault layoutTable layoutEntry.path (.truncated .field) := by
  have hentry : m.entry? layoutEntry.path = some brokenEntry := by
    rw [entry?_brokenDraft h, if_pos rfl]
  exact ⟨⟨"res/main.xml", .head _, rfl⟩, brokenEntry, _, hentry, rfl, rfl⟩

/-- Nothing but the broken document stands in the way of a move. -/
theorem ready_brokenDraft {m : Module} (h : brokenDraft.build? = .ok m) :
    m.Ready layoutTable 2 := by
  have hbroken : ∀ p e, m.entry? p = some e → e = brokenEntry := by
    intro p e he
    rw [entry?_brokenDraft h] at he
    split at he
    · exact (Option.some.inj he).symm
    · cases he
  refine ⟨fun text htext => ?_, fun p e he => ?_, fun p e bytes n fault _ he hbytes hdecode => ?_⟩
  · have hfiles : ∀ f ∈ layoutTable.files, (Path.ofText? f.1).isOk := by decide +kernel
    exact Step.ok_of_isOk (hfiles (text, .xml) htext)
  · rw [hbroken p e he]
    exact ⟨_, rfl⟩
  · rw [hbroken p e he] at hbytes
    cases hbytes
    cases hdecode

theorem move?_exact_layoutDraft :
    (∃ m m', layoutDraft.build? = .ok m ∧ m.move? 2 = .ok m' ∧ m.MovesTo layoutTable 2 m') ∧
      ∃ m p fault, brokenDraft.build? = .ok m ∧ m.Ready layoutTable 2 ∧
        m.HasFault layoutTable p fault ∧
        m.move? 2 = .error (.decode (some p.toText) (.xml fault)) := by
  have hnew : 1 ≤ (2 : UInt32).toNat ∧ (2 : UInt32).toNat ≤ 0xff := by decide
  constructor
  · obtain ⟨m', h⟩ : ∃ m', (layoutDraft.build? >>= (·.move? 2)) = .ok m' :=
      Step.ok_of_isOk (by decide +kernel)
    obtain ⟨m, hbuild, hmove⟩ := Step.ok_of_bind h
    have hbuilt : m.Built := ⟨layoutDraft, reachable_layoutDraft, hbuild⟩
    have htable : m.configs.table = some layoutTable :=
      congrArg (·.configs.table) (Draft.toDraft_of_build? hbuild)
    exact ⟨m, m', hbuild, hmove, (move?_exact hbuilt htable hnew).1 m' hmove⟩
  · obtain ⟨m, hbuild⟩ : ∃ m, brokenDraft.build? = .ok m := ⟨_, rfl⟩
    have hbuilt : m.Built := ⟨brokenDraft, reachable_brokenDraft, hbuild⟩
    have htable : m.configs.table = some layoutTable :=
      congrArg (·.configs.table) (Draft.toDraft_of_build? hbuild)
    have hready := ready_brokenDraft hbuild
    have hfault := hasFault_brokenDraft hbuild
    obtain ⟨hfails, hnames⟩ := (move?_exact hbuilt htable hnew).2.2 hready
    obtain ⟨e, hmove⟩ := hfails.2 ⟨_, _, hfault⟩
    obtain ⟨p, fault, hp, rfl⟩ := hnames e hmove
    exact ⟨m, p, fault, hbuild, hready, hp, hmove⟩

end Module

end AppBundle
