import AppBundle.Proofs.Module.References

/-!
# Moving again and moving back

A module that moved has its table, its manifest and its listed documents in the
new package already.  Moving it there once more gives the same module, down to
the bytes of its entries (`Module.move?_self`): each document that was written by
the first move is read as it was written, and written alike.

A move can be undone where nothing gets mixed up.  If all packages had one number
and no reference was into the new package, then moving back to the old number
gives the table, the manifest and the listed documents that the module had
(`Module.restored_of_move?`).  The documents are the same trees; their bytes are
those of this writer, whoever wrote the old ones.
-/

namespace AppBundle

open Resource Xml

/-! ## Tables, entries and manifests -/

theorem Resource.Table.listsXml_renumber {t : Table} {new : UInt32} {p : Path} :
    ListsXml ⟨t.packages.map fun p => { p with id := new }⟩ p ↔ t.ListsXml p := by
  rw [ListsXml, ListsXml, files_renumber]

/-- A document that a move has written is fixed by the moves that keep ids in the
new package. -/
theorem Entry.moveReferences?_again {old old' : List UInt32} {new : UInt32} {e e' : Entry}
    (h : e.moveReferences? old new = .ok e') (hold : ∀ q ∈ old', q = new) :
    e'.moveReferences? old' new = .ok e' := by
  obtain ⟨bytes, n, bytes', -, hread, hwrite, rfl⟩ := moveReferences?_eq_ok_iff.1 h
  refine moveReferences?_eq_ok_iff.2 ⟨bytes', n.moveReferences old new, bytes', rfl,
    Binary.decode_encode_moveReferences hread hwrite, ?_, rfl⟩
  rw [Node.moveReferences_self hold, hwrite]

/-- Two entries that hold the same document, in whatever bytes. -/
structure Entry.SameDocument (e e' : Entry) : Prop where
  path_eq : e'.path = e.path
  isDirectory_eq : e'.isDirectory = e.isDirectory
  uncompressed_eq : e'.uncompressed = e.uncompressed
  /-- The bytes of both are read as one tree. -/
  document : ∃ bytes bytes' n, e.content = .ok bytes ∧ Binary.decode bytes = .ok n ∧
    e'.content = .ok bytes' ∧ Binary.decode bytes' = .ok n

theorem Manifest.toNode_inj {m m' : Manifest} (h : m.toNode = m'.toNode) : m = m' := by
  obtain ⟨⟨tag, children⟩, _, _⟩ := m
  obtain ⟨⟨tag', children'⟩, _, _⟩ := m'
  cases h
  rfl

/-! ## Modules -/

namespace Module

/-- A value in the manifest or in a listed document that can be read refers to a
resource of one of these packages. -/
def RefersInto (m : Module) (t : Table) (packages : List UInt32) : Prop :=
  m.manifest.toNode.RefersInto packages ∨
    ∃ p e bytes n, t.ListsXml p ∧ m.entry? p = some e ∧ e.content = .ok bytes ∧
      Binary.decode bytes = .ok n ∧ n.RefersInto packages

/-- A module and one that has everything it has, but for the bytes of the documents
that the table lists. -/
structure Restored (m : Module) (t : Table) (m' : Module) : Prop where
  name_eq : m'.name = m.name
  context_eq : m'.context = m.context
  /-- The configurations are the same, the table among them. -/
  configs_eq : m'.configs = m.configs
  manifest_eq : m'.manifest = m.manifest
  keys_eq : m'.entries.keys = m.entries.keys
  /-- Each listed document that is there holds the same tree. -/
  listed : ∀ p e, t.ListsXml p → m.entry? p = some e →
    ∃ e', Module.entry? m' p = some e' ∧ e.SameDocument e'
  /-- All other paths have the same entries. -/
  unlisted : ∀ p, ¬ t.ListsXml p → Module.entry? m' p = m.entry? p

variable {m m' back : Module} {t : Table} {new package : UInt32}

theorem checkPackageId_of_move? (h : m.move? new = .ok m') : checkPackageId new = .ok () := by
  obtain ⟨⟨⟩, hnew, -⟩ := Step.ok_of_bind h
  exact hnew

theorem MovesTo.table_eq (h : m.MovesTo t new m') :
    m'.configs.table = some ⟨t.packages.map fun p => { p with id := new }⟩ := by
  rw [h.configs_eq]

/-- A module stays as it is when the packages of its table have the number already
and its listed documents are fixed. -/
theorem withMoved_eq_self (ht : m.configs.table = some t) (hids : ∀ p ∈ t.packages, p.id = new)
    {documents : List Entry} (hdocuments : ∀ f ∈ documents, m.entry? f.path = some f) :
    m.withMoved t new documents = m := by
  have hconfigs : { m.configs with
      table := some (Table.mk (t.packages.map fun p => { p with id := new })) } = m.configs := by
    rw [Table.renumber_self hids, ← ht]
  have hmanifest : m.manifest.moveReferences t.packageIds new = m.manifest := by
    apply Manifest.toNode_inj
    exact Node.moveReferences_self (List.forall_mem_map.2 hids) m.manifest.toNode
  rw [withMoved, hconfigs, hmanifest, Entries.insertAll_eq_self hdocuments]

theorem move?_self (hm : m.Built) (hnew : checkPackageId new = .ok ())
    (ht : m.configs.table = some t) (hids : ∀ p ∈ t.packages, p.id = new)
    {paths : OrderedSet Path} (hpaths : t.xmlPaths? = .ok paths)
    (hfixed : ∀ p e, t.ListsXml p → m.entry? p = some e →
      e.moveReferences? t.packageIds new = .ok e) : m.move? new = .ok m := by
  have hdocuments : ∀ e ∈ paths.toList.filterMap m.entry?,
      t.ListsXml e.path ∧ m.entry? e.path = some e := fun e he =>
    (mem_documents hm hpaths).1 he
  have hrow := Step.mapM_eq_self fun e he =>
    hfixed e.path e (hdocuments e he).1 (hdocuments e he).2
  rw [move?_of_some hnew ht, Step.bind_ok _ hpaths, Step.bind_ok _ hrow,
    withMoved_eq_self ht hids fun e he => (hdocuments e he).2]

/-- A module that moved stays as it is when it moves to the same number again. -/
theorem move?_again (hm : m.Built) (ht : m.configs.table = some t) (h : m.move? new = .ok m') :
    m'.move? new = .ok m' := by
  have hnew := checkPackageId_of_move? h
  have hmoves := movesTo_of_move? hm ht hnew h
  obtain ⟨paths, hpaths, -⟩ := Step.ok_of_bind (move?_of_some hnew ht ▸ h)
  refine move?_self (hm.move h) hnew hmoves.table_eq (List.forall_mem_map.2 fun _ _ => rfl)
    (Table.xmlPaths?_renumber.trans hpaths) ?_
  intro p e' hlisted he'
  obtain ⟨e, he⟩ := hmoves.entry_of_entry he'
  obtain ⟨moved, hmoved, hmove⟩ := replaced_of_move? hm ht hnew h
    (Table.listsXml_renumber.1 hlisted) he
  rw [he'] at hmoved
  cases hmoved
  refine Entry.moveReferences?_again hmove ?_
  rw [Table.packageIds_renumber]
  exact List.forall_mem_map.2 fun _ _ => rfl

/-- A module that moved to a package that it did not refer to is restored when it
moves back to the only package that it had. -/
theorem restored_of_move? (hm : m.Built) (ht : m.configs.table = some t)
    (h : m.move? new = .ok m') (hids : ∀ p ∈ t.packages, p.id = package)
    (hfree : ¬ m.RefersInto t [new]) (hback : m'.move? package = .ok back) :
    m.Restored t back := by
  have hnew := checkPackageId_of_move? h
  have hmoves := movesTo_of_move? hm ht hnew h
  have hreturns := movesTo_of_move? (hm.move h) hmoves.table_eq (checkPackageId_of_move? hback)
    hback
  have htree : ∀ n : Node, ¬ n.RefersInto [new] →
      (n.moveReferences t.packageIds new).moveReferences
        (Table.packageIds ⟨t.packages.map fun p => { p with id := new }⟩) package = n := by
    intro n hn
    rw [Table.packageIds_renumber]
    exact Node.moveReferences_back (List.forall_mem_map.2 hids)
      (checkPackageId_eq_ok_iff.1 hnew).2 hn
  refine ⟨hreturns.name_eq.trans hmoves.name_eq, hreturns.context_eq.trans hmoves.context_eq,
    ?_, ?_, hreturns.keys_eq.trans hmoves.keys_eq, ?_, ?_⟩
  · rw [hreturns.configs_eq, hmoves.configs_eq]
    simp only
    rw [Table.renumber_renumber, Table.renumber_self hids, ← ht]
  · apply Manifest.toNode_inj
    rw [hreturns.manifest_eq, hmoves.manifest_eq, htree _ fun hn => hfree (.inl hn)]
  · intro p e hlisted he
    obtain ⟨e₁, he₁, hfirst⟩ := hmoves.listed p e hlisted he
    obtain ⟨e₂, he₂, hsecond⟩ := hreturns.listed p e₁ (Table.listsXml_renumber.2 hlisted) he₁
    obtain ⟨bytes, bytes₁, n, hbytes, hread, hbytes₁, hread₁⟩ := hfirst.document
    obtain ⟨_, bytes₂, _, hsame, hread', hbytes₂, hread₂⟩ := hsecond.document
    -- The second move reads what the first one wrote.
    rw [hbytes₁] at hsame
    cases hsame
    rw [hread₁] at hread'
    cases hread'
    rw [htree n fun hn => hfree (.inr ⟨p, e, bytes, n, hlisted, he, hbytes, hread, hn⟩)] at hread₂
    exact ⟨e₂, he₂, hsecond.path_eq.trans hfirst.path_eq,
      hsecond.isDirectory_eq.trans hfirst.isDirectory_eq,
      hsecond.uncompressed_eq.trans hfirst.uncompressed_eq,
      bytes, bytes₂, n, hbytes, hread, hbytes₂, hread₂⟩
  · intro p hlisted
    rw [hreturns.unlisted p (mt Table.listsXml_renumber.1 hlisted), hmoves.unlisted p hlisted]

/-- A module that moved has moved for good: moving to the same number again gives it
once more, byte for byte.  Moving to the only number that its packages had before
restores the old module, unless there was a reference into the new package all along. -/
theorem move?_returns (hm : m.Built) (ht : m.configs.table = some t) (h : m.move? new = .ok m') :
    m.MovesTo t new m' ∧ m'.move? new = .ok m' ∧
    ∀ package back, (∀ p ∈ t.packages, p.id = package) → ¬ m.RefersInto t [new] →
      m'.move? package = .ok back → m.Restored t back := by
  refine ⟨movesTo_of_move? hm ht (checkPackageId_of_move? h) h, move?_again hm ht h, ?_⟩
  intro package back hids hfree hback
  exact restored_of_move? hm ht h hids hfree hback

/-- Neither the manifest of the module nor its document refers into this package. -/
theorem not_refersInto_styledModule (h : styledDraft.build? = .ok m) :
    ¬ m.RefersInto layoutTable [2] := by
  have hdocument : (Binary.decode Binary.foreignDocument).toOption.all
      (fun n => decide (¬ n.RefersInto [2])) = true := by
    decide +kernel
  cases h
  rintro (hmanifest | ⟨p, e, bytes, n, -, he, hbytes, hread, hn⟩)
  · exact absurd hmanifest (by decide)
  · have hentry : (if p = layoutEntry.path then some layoutEntry else none) = some e :=
      (OrderedMap.get?_insert ∅ layoutEntry.path layoutEntry p).symm.trans he
    split at hentry
    · cases hentry
      cases hbytes
      rw [hread] at hdocument
      exact of_decide_eq_true hdocument hn
    · cases hentry

theorem move?_returns_styledModule :
    ∃ m m' back, styledDraft.build? = .ok m ∧ m.move? 2 = .ok m' ∧ m'.move? 2 = .ok m' ∧
      m'.move? 0x7f = .ok back ∧ m.Restored layoutTable back := by
  obtain ⟨m, hbuild, hbuilt, htable⟩ := build?_styledDraft
  obtain ⟨back, h⟩ : ∃ back, (styledDraft.build? >>= fun m => m.move? 2 >>= (·.move? 0x7f)) =
      .ok back :=
    Step.ok_of_isOk (by decide +kernel)
  rw [Step.bind_ok _ hbuild] at h
  obtain ⟨m', hmove, hback⟩ := Step.ok_of_bind h
  obtain ⟨-, hagain, hrestored⟩ := move?_returns hbuilt htable hmove
  have hids : ∀ p ∈ layoutTable.packages, p.id = 0x7f := by decide
  exact ⟨m, m', back, hbuild, hmove, hagain, hback,
    hrestored 0x7f back hids (not_refersInto_styledModule hbuild) hback⟩

end Module

end AppBundle
