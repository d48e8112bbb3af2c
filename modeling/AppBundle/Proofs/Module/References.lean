import AppBundle.Proofs.Module.Move
import AppBundle.Proofs.Xml.References

/-!
# References of a module that moved

A module that moves to a fresh package number leaves the packages of its table.
No value in its manifest or in a document that its table lists refers to them any
more (`Module.referencesLeave_of_move?`).

The attributes themselves are another matter.  One that the module defines keeps
the id that it has, and with it the old package (`Module.move?_styledModule`),
where the moved table has nothing.
-/

namespace AppBundle

open Resource Xml

namespace Module

variable {m m' : Module} {t : Table} {new : UInt32}

/-- A module that moved has no entries at new paths. -/
theorem MovesTo.entry_of_entry (h : m.MovesTo t new m') {p : Path} {e' : Entry}
    (he' : m'.entry? p = some e') : ∃ e, m.entry? p = some e := by
  have hmem : p ∈ m'.entries.keys :=
    List.mem_map.2 ⟨(p, e'), OrderedMap.mem_toList_iff.2 he', rfl⟩
  rw [h.keys_eq] at hmem
  obtain ⟨⟨q, e⟩, he, rfl⟩ := List.mem_map.1 hmem
  exact ⟨e, OrderedMap.mem_toList_iff.1 he⟩

/-- After a move to a fresh number no reference into the old packages is left in the
manifest or in a listed document that is there.  The attributes of both are
defined by the same resources as before, whatever package these are in. -/
theorem referencesLeave_of_move? (hm : m.Built) (ht : m.configs.table = some t)
    (hnew : 1 ≤ new.toNat ∧ new.toNat ≤ 0xff) (hfresh : new ∉ t.packageIds)
    (h : m.move? new = .ok m') :
    Node.ReferencesLeave t.packageIds m.manifest.toNode m'.manifest.toNode ∧
    ∀ p e', t.ListsXml p → m'.entry? p = some e' →
      ∃ e bytes bytes' n n', m.entry? p = some e ∧
        e.content = .ok bytes ∧ Binary.decode bytes = .ok n ∧
        e'.content = .ok bytes' ∧ Binary.decode bytes' = .ok n' ∧
        Node.ReferencesLeave t.packageIds n n' := by
  have hcheck : checkPackageId new = .ok () := by
    rw [checkPackageId, if_pos hnew]
  have hmoves := movesTo_of_move? hm ht hcheck h
  constructor
  · rw [hmoves.manifest_eq]
    exact Node.referencesLeave hnew.2 hfresh _
  · intro p e' hlisted he'
    obtain ⟨e, he⟩ := hmoves.entry_of_entry he'
    obtain ⟨moved, hmoved, hfollows⟩ := hmoves.listed p e hlisted he
    rw [he'] at hmoved
    cases hmoved
    obtain ⟨bytes, bytes', n, hbytes, hread, hbytes', hread'⟩ := hfollows.document
    exact ⟨e, bytes, bytes', n, _, he, hbytes, hread, hbytes', hread',
      Node.referencesLeave hnew.2 hfresh n⟩

/-- A manifest with an attribute of the module's own, and a reference into the module. -/
def styledManifest : Manifest where
  root :=
    { name := "manifest"
      attributes := [
        { namespaceUri := "http://schemas.android.com/apk/res-auto", name := "style"
          resourceId := some 0x7f020000, item := some (.reference 0x7f010000 none) }] }
  name_eq := rfl
  namespace_eq := rfl

/-- A module with this manifest, a table, and one of the documents that the table lists. -/
def styledDraft : Draft := { layoutDraft with manifest := some styledManifest }

theorem build?_styledDraft : ∃ m, styledDraft.build? = .ok m ∧ m.Built ∧
    m.configs.table = some layoutTable := by
  obtain ⟨m, h⟩ : ∃ m, styledDraft.build? = .ok m := ⟨_, rfl⟩
  have hreachable : styledDraft.Reachable := .setManifest _ reachable_layoutDraft
  exact ⟨m, h, ⟨styledDraft, hreachable, h⟩,
    congrArg (·.configs.table) (Draft.toDraft_of_build? h)⟩

theorem referencesLeave_of_move?_styledModule :
    ∃ m m', styledDraft.build? = .ok m ∧ m.move? 2 = .ok m' ∧ 2 ∉ layoutTable.packageIds ∧
      Node.ReferencesLeave layoutTable.packageIds m.manifest.toNode m'.manifest.toNode := by
  obtain ⟨m, hbuild, hbuilt, htable⟩ := build?_styledDraft
  obtain ⟨m', h⟩ : ∃ m', (styledDraft.build? >>= (·.move? 2)) = .ok m' :=
    Step.ok_of_isOk (by decide +kernel)
  rw [Step.bind_ok _ hbuild] at h
  have hfresh : 2 ∉ layoutTable.packageIds := by decide
  exact ⟨m, m', hbuild, h, hfresh,
    (referencesLeave_of_move? hbuilt htable (by decide) hfresh h).1⟩

/-- The attribute of the module's own is still defined in the package that the
module left. -/
theorem move?_styledModule :
    ∃ m m', styledDraft.build? = .ok m ∧ m.Built ∧ m.configs.table = some layoutTable ∧
      2 ∉ layoutTable.packageIds ∧ m.move? 2 = .ok m' ∧
      ∃ e ∈ m'.manifest.toNode.elements, ∃ a ∈ e.attributes,
        a.DefinedIn layoutTable.packageIds := by
  obtain ⟨m, hbuild, hbuilt, htable⟩ := build?_styledDraft
  obtain ⟨m', h⟩ : ∃ m', (styledDraft.build? >>= (·.move? 2)) = .ok m' :=
    Step.ok_of_isOk (by decide +kernel)
  rw [Step.bind_ok _ hbuild] at h
  have hmoves := movesTo_of_move? hbuilt htable rfl h
  refine ⟨m, m', hbuild, hbuilt, htable, by decide, h, ?_⟩
  cases hbuild
  rw [hmoves.manifest_eq]
  exact ⟨_, List.mem_cons_self, _, List.mem_cons_self, 0x7f020000, rfl, by decide⟩

end Module

end AppBundle
