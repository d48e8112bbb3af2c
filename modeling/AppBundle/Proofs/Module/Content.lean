import AppBundle.Module.Basic
import AppBundle.Proofs.Reading
import AppBundle.Proofs.Ordered

/-!
# Contents of a draft

The six well-known contents of a draft are treated alike: each has a type, a
reader, a writer and a place in the draft (`WellKnown.Content`,
`Draft.content?`).  So a step that adds an entry does one of two things
(`Draft.ok_of_add?`): it keeps the entry, or it sets one content.
-/

namespace AppBundle

/-! ## Well-known contents -/

namespace WellKnown

/-- What the bytes at a well-known path are decoded to. -/
def Content : WellKnown → Type
  | manifest => Manifest
  | table => Resource.Table
  | native => NativeConfig
  | assets => AssetsConfig
  | apex => ApexConfig
  | sdk => SdkConfig

/-- Reads a content. -/
def read? : (known : WellKnown) → Bytes → Except BundleError known.Content
  | manifest => Manifest.ofBytes?
  | table => Resource.Table.ofBytes?
  | native => NativeConfig.format.ofBytes?
  | assets => AssetsConfig.format.ofBytes?
  | apex => ApexConfig.format.ofBytes?
  | sdk => SdkConfig.format.ofBytes?

/-- Writes a content. -/
def write? : (known : WellKnown) → known.Content → Except BundleError Bytes
  | manifest => Manifest.toBytes
  | table => Resource.Table.toBytes
  | native => NativeConfig.format.toBytes
  | assets => AssetsConfig.format.toBytes
  | apex => ApexConfig.format.toBytes
  | sdk => SdkConfig.format.toBytes

theorem ofPath?_path (known : WellKnown) : ofPath? known.path = some known := by
  cases known <;> rfl

end WellKnown

namespace Draft

/-- The content of a draft at a well-known path. -/
def content? (d : Draft) : (known : WellKnown) → Option known.Content
  | .manifest => d.manifest
  | .table => d.configs.table
  | .native => d.configs.native
  | .assets => d.configs.assets
  | .apex => d.configs.apex
  | .sdk => d.configs.sdk

/-- The draft with another content at a well-known path. -/
def setContent (d : Draft) : (known : WellKnown) → known.Content → Draft
  | .manifest, m => { d with manifest := some m }
  | .table, t => d.configure ({ · with table := some t })
  | .native, c => d.configure ({ · with native := some c })
  | .assets, c => d.configure ({ · with assets := some c })
  | .apex, c => d.configure ({ · with apex := some c })
  | .sdk, c => d.configure ({ · with sdk := some c })

variable {d d' : Draft} {known : WellKnown} {e : Entry}

theorem decode?_eq (d : Draft) (bytes : Bytes) (known : WellKnown) :
    d.decode? bytes known = (known.read? bytes).map (d.setContent known) := by
  cases known <;> rfl

@[simp] theorem name_setContent (d : Draft) (c : known.Content) :
    (d.setContent known c).name = d.name := by
  cases known <;> rfl

@[simp] theorem context_setContent (d : Draft) (c : known.Content) :
    (d.setContent known c).context = d.context := by
  cases known <;> rfl

@[simp] theorem entries_setContent (d : Draft) (c : known.Content) :
    (d.setContent known c).entries = d.entries := by
  cases known <;> rfl

@[simp] theorem content?_setContent_self (d : Draft) (c : known.Content) :
    (d.setContent known c).content? known = some c := by
  cases known <;> rfl

theorem content?_setContent_of_ne {other : WellKnown} (h : other ≠ known) (d : Draft)
    (c : known.Content) : (d.setContent known c).content? other = d.content? other := by
  cases known <;> cases other <;> first | rfl | contradiction

theorem get?_entries_insert (d : Draft) (e : Entry) (p : Path) :
    (d.insert e).entries.get? p = if p = e.path then some e else d.entries.get? p :=
  OrderedMap.get?_insert d.entries e.path e p

/-- An entry that is added is kept, or its bytes are decoded. -/
theorem ok_of_add? (h : d.add? e = .ok d') :
    (WellKnown.ofPath? e.path = none ∧ d' = d.insert e) ∨
      ∃ known bytes c, WellKnown.ofPath? e.path = some known ∧ e.content = .ok bytes ∧
        known.read? bytes = .ok c ∧ d' = d.setContent known c := by
  simp only [add?] at h
  split at h
  · rename_i hplain
    cases h
    exact .inl ⟨hplain, rfl⟩
  · rename_i known hknown
    obtain ⟨bytes, hbytes, h⟩ := Step.ok_of_bind h
    rw [decode?_eq] at h
    split at h
    · rename_i hdecode
      cases h
      obtain ⟨c, hread, rfl⟩ := Step.ok_of_map hdecode
      exact .inr ⟨known, bytes, c, hknown, hbytes, hread, rfl⟩
    · cases h

theorem add?_of_plain (d : Draft) (h : WellKnown.ofPath? e.path = none) :
    d.add? e = .ok (d.insert e) := by
  simp [add?, h]

theorem add?_of_read {bytes : Bytes} {c : known.Content} (d : Draft)
    (hpath : WellKnown.ofPath? e.path = some known) (hbytes : e.content = .ok bytes)
    (hread : known.read? bytes = .ok c) : d.add? e = .ok (d.setContent known c) := by
  -- The bytes decode in `d` as they do anywhere.
  have hdecode : d.decode? bytes known = .ok (d.setContent known c) := by
    rw [decode?_eq, hread]
    rfl
  simp only [add?, hpath]
  rw [Step.bind_ok _ hbytes, hdecode]
  rfl

/-- A draft is its name, its settings, its entries and its contents. -/
theorem ext_content? (hname : d.name = d'.name) (hcontext : d.context = d'.context)
    (hentries : d.entries = d'.entries) (hcontent : ∀ known, d.content? known = d'.content? known) :
    d = d' := by
  obtain ⟨⟨name, context, entries, table, native, assets, apex, sdk⟩, manifest⟩ := d
  obtain ⟨⟨name', context', entries', table', native', assets', apex', sdk'⟩, manifest'⟩ := d'
  cases hname
  cases hcontext
  cases hentries
  cases hcontent .manifest
  cases hcontent .table
  cases hcontent .native
  cases hcontent .assets
  cases hcontent .apex
  cases hcontent .sdk
  rfl

end Draft

end AppBundle
