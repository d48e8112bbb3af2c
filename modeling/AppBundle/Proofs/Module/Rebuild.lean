import AppBundle.Proofs.Manifest.Edited
import AppBundle.Proofs.Module.Built
import AppBundle.Proofs.Module.Config

/-!
# A module from its own output

A module can hand out entries for its manifest and its configurations.  Together
with its other entries they are all that a new draft needs to become the same
module, in whatever order they are added (`Module.build?_of_configEntries?`).

What is written for a content is read back (`WellKnown.read?_of_write?`).  For
the manifest that asks for a tree that a document can hold, and a manifest that
came out of an entry has one.

A draft that is filled with entries which another draft holds stays below that
draft (`Draft.Below`).  When they are all the entries of the other draft, it ends
up equal to it.
-/

namespace AppBundle

/-! ## Writing and reading contents -/

namespace WellKnown

variable {known : WellKnown} {bytes : Bytes} {c : known.Content}

/-- Whether a content is one that bytes can hold.  Only a manifest may say too much. -/
def Fits : (known : WellKnown) → known.Content → Prop
  | manifest, m => Xml.Node.Canonical (Manifest.toNode m)
  | _, _ => True

theorem fits_of_read? (h : known.read? bytes = .ok c) : known.Fits c := by
  cases known with
  | manifest => exact Manifest.canonical_of_ofBytes? h
  | _ => exact True.intro

theorem read?_of_write? (hc : known.Fits c) (h : known.write? c = .ok bytes) :
    known.read? bytes = .ok c := by
  cases known with
  | manifest => exact Manifest.ofBytes?_of_canonical hc h
  | table => exact Resource.Table.lawful_format.ofBytes?_of_toBytes h
  | native => exact NativeConfig.lawful_format.ofBytes?_of_toBytes h
  | assets => exact AssetsConfig.lawful_format.ofBytes?_of_toBytes h
  | apex => exact ApexConfig.lawful_format.ofBytes?_of_toBytes h
  | sdk => exact SdkConfig.lawful_format.ofBytes?_of_toBytes h

end WellKnown

namespace Draft

variable {d d' d₀ : Draft} {known : WellKnown} {e : Entry}

/-! ## Drafts below a draft -/

/-- What a draft has, another has as well. -/
structure Below (d d₀ : Draft) : Prop where
  /-- They have one name. -/
  name_eq : d.name = d₀.name
  /-- They have the same settings. -/
  context_eq : d.context = d₀.context
  /-- The other has the entries. -/
  entries : ∀ p e, d.entries.get? p = some e → d₀.entries.get? p = some e
  /-- The other has the contents. -/
  contents : ∀ known c, d.content? known = some c → d₀.content? known = some c

namespace Below

theorem refl (d : Draft) : d.Below d := ⟨rfl, rfl, fun _ _ h => h, fun _ _ h => h⟩

theorem trans {d₁ d₂ d₃ : Draft} (h : d₁.Below d₂) (h' : d₂.Below d₃) : d₁.Below d₃ where
  name_eq := h.name_eq.trans h'.name_eq
  context_eq := h.context_eq.trans h'.context_eq
  entries p e he := h'.entries p e (h.entries p e he)
  contents known c hc := h'.contents known c (h.contents known c hc)

theorem antisymm (h : d.Below d') (h' : d'.Below d) : d = d' := by
  refine ext_content? h.name_eq h.context_eq (OrderedMap.ext_get? fun p => ?_) fun known => ?_
  · exact Option.ext fun e => ⟨h.entries p e, h'.entries p e⟩
  · exact Option.ext fun c => ⟨h.contents known c, h'.contents known c⟩

end Below

/-- A draft has what an entry says: the entry itself, or what is decoded from it. -/
inductive Holds (d : Draft) (e : Entry) : Prop where
  /-- An entry is kept under its path. -/
  | kept (plain : WellKnown.ofPath? e.path = none) (held : d.entries.get? e.path = some e)
  /-- The bytes at a well-known path are decoded. -/
  | decoded {known : WellKnown} {bytes : Bytes} {c : known.Content}
      (path : WellKnown.ofPath? e.path = some known) (content : e.content = .ok bytes)
      (read : known.read? bytes = .ok c) (held : d.content? known = some c)

theorem Holds.mono (he : d.Holds e) (h : d.Below d') : d'.Holds e := by
  cases he with
  | kept plain held => exact .kept plain (h.entries _ _ held)
  | decoded path content read held => exact .decoded path content read (h.contents _ _ held)

/-- A draft below another that holds an entry takes the entry in, and stays below. -/
theorem add?_of_holds (hd : d.Below d₀) (he : d₀.Holds e) :
    ∃ d', d.add? e = .ok d' ∧ d.Below d' ∧ d'.Below d₀ ∧ d'.Holds e := by
  cases he with
  | kept plain held =>
    -- Only one path changes, and the other draft has the entry there.
    refine ⟨d.insert e, add?_of_plain d plain, ⟨rfl, rfl, ?_, fun _ _ h => h⟩,
      ⟨hd.name_eq, hd.context_eq, ?_, hd.contents⟩, .kept plain ?_⟩
    · intro p f hf
      rw [get?_entries_insert]
      split
      · rename_i hp
        rw [← held, ← hd.entries p f hf, hp]
      · exact hf
    · intro p f hf
      rw [get?_entries_insert] at hf
      split at hf
      · rename_i hp
        rw [hp, held, hf]
      · exact hd.entries p f hf
    · simp [get?_entries_insert]
  | @decoded known bytes c path content read held =>
    refine ⟨d.setContent known c, add?_of_read d path content read,
      ⟨by simp, by simp, by simp, ?_⟩,
      ⟨by simp [hd.name_eq], by simp [hd.context_eq], by simpa using hd.entries, ?_⟩,
      .decoded path content read (by simp)⟩
    · intro other c' hc'
      by_cases hother : other = known
      · subst hother
        rw [content?_setContent_self, ← held, hd.contents other c' hc']
      · rwa [content?_setContent_of_ne hother]
    · intro other c' hc'
      by_cases hother : other = known
      · subst hother
        rw [content?_setContent_self] at hc'
        rw [held, hc']
      · rw [content?_setContent_of_ne hother] at hc'
        exact hd.contents other c' hc'

/-- So it takes in any number of entries, and in the end holds them all. -/
theorem addAll_of_holds {es : List Entry} (hd : d.Below d₀) (hes : ∀ e ∈ es, d₀.Holds e) :
    ∃ d', d.addAll es = (d', .ok ()) ∧ d.Below d' ∧ d'.Below d₀ ∧ ∀ e ∈ es, d'.Holds e := by
  induction es generalizing d with
  | nil => exact ⟨d, rfl, .refl d, hd, fun _ he => absurd he List.not_mem_nil⟩
  | cons e es ih =>
    rw [List.forall_mem_cons] at hes
    obtain ⟨d₁, hadd, hfirst, hd₁, he⟩ := add?_of_holds hd hes.1
    obtain ⟨d', hall, hrest, hd', hheld⟩ := ih hd₁ hes.2
    refine ⟨d', ?_, hfirst.trans hrest, hd', List.forall_mem_cons.2 ⟨he.mono hrest, hheld⟩⟩
    rw [addAll, hadd]
    exact hall

/-! ## Drafts that were filled with entries -/

/-- What holds of a draft however it was filled with entries. -/
structure Filled (d : Draft) : Prop where
  /-- Every entry stands under its own path. -/
  keyed : d.entries.Keyed
  /-- No entry stands at a well-known path. -/
  plain : ∀ p e, d.entries.get? p = some e → WellKnown.ofPath? p = none
  /-- The contents fit. -/
  fits : ∀ known c, d.content? known = some c → known.Fits c

namespace Filled

theorem start (name : String) (context : Context) : Filled { name, context } := by
  refine ⟨?_, ?_, ?_⟩
  · intro p e he
    cases he
  · intro p e he
    cases he
  · intro known c hc
    cases known <;> cases hc

theorem add? (hd : d.Filled) (h : d.add? e = .ok d') : d'.Filled := by
  have hkeyed := keyed_of_add? hd.keyed h
  have hplain := plain_of_add? hd.plain h
  rcases ok_of_add? h with ⟨-, rfl⟩ | ⟨known, bytes, c, -, -, hread, rfl⟩
  · exact ⟨hkeyed, hplain, hd.fits⟩
  · refine ⟨hkeyed, hplain, ?_⟩
    intro other c' hc'
    by_cases hother : other = known
    · subst hother
      rw [content?_setContent_self] at hc'
      cases hc'
      exact WellKnown.fits_of_read? hread
    · rw [content?_setContent_of_ne hother] at hc'
      exact hd.fits other c' hc'

theorem addAll {es : List Entry} (hd : d.Filled) : (d.addAll es).1.Filled := by
  induction es generalizing d with
  | nil => exact hd
  | cons e es ih =>
    rw [Draft.addAll]
    split
    · rename_i hadd
      exact ih (hd.add? hadd)
    · exact hd

end Filled

end Draft

/-! ## What a module hands out -/

namespace Module

variable {m : Module} {cs : List Entry}

theorem configEntries?_eq (m : Module) :
    m.configEntries? = List.flatten <$> WellKnown.all.mapM fun known =>
      entryOf? known known.write? (m.toDraft.content? known) := by
  simp only [WellKnown.all, List.mapM_cons, List.mapM_nil, map_bind, map_pure, pure_bind,
    bind_assoc, configEntries?]
  rfl

theorem mem_of_entryOf? {α : Type} {known : WellKnown} {write : α → Except BundleError Bytes}
    {content : Option α} {es : List Entry} (h : entryOf? known write content = .ok es) {e : Entry} :
    e ∈ es ↔ ∃ a bytes, content = some a ∧ write a = .ok bytes ∧
      e = .ofBytes known.path bytes := by
  cases content with
  | none =>
    cases h
    simp
  | some a =>
    obtain ⟨bytes, hwrite, h⟩ := Step.ok_of_bind h
    cases h
    simp [hwrite]

/-- The entries for the manifest and the configurations: one for each content. -/
theorem mem_of_configEntries? (h : m.configEntries? = .ok cs) {e : Entry} :
    e ∈ cs ↔ ∃ known c bytes, m.toDraft.content? known = some c ∧
      known.write? c = .ok bytes ∧ e = .ofBytes known.path bytes := by
  rw [configEntries?_eq] at h
  obtain ⟨rows, hrows, rfl⟩ := Step.ok_of_map h
  rw [List.mem_flatten]
  constructor
  · rintro ⟨es, hes, he⟩
    obtain ⟨known, -, hknown⟩ := (Step.mem_of_mapM hrows).1 hes
    obtain ⟨c, bytes, hc, hwrite, rfl⟩ := (mem_of_entryOf? hknown).1 he
    exact ⟨known, c, bytes, hc, hwrite, rfl⟩
  · rintro ⟨known, c, bytes, hc, hwrite, rfl⟩
    have hmem : known ∈ WellKnown.all := by cases known <;> decide
    obtain ⟨es, hknown⟩ := Step.ok_of_mem_mapM hrows hmem
    exact ⟨es, (Step.mem_of_mapM hrows).2 ⟨known, hmem, hknown⟩,
      (mem_of_entryOf? hknown).2 ⟨c, bytes, hc, hwrite, rfl⟩⟩

theorem write?_of_configEntries? (h : m.configEntries? = .ok cs) {known : WellKnown}
    {c : known.Content} (hc : m.toDraft.content? known = some c) :
    ∃ bytes, known.write? c = .ok bytes := by
  rw [configEntries?_eq] at h
  obtain ⟨rows, hrows, -⟩ := Step.ok_of_map h
  have hmem : known ∈ WellKnown.all := by cases known <;> decide
  obtain ⟨es, hknown⟩ := Step.ok_of_mem_mapM hrows hmem
  rw [hc] at hknown
  obtain ⟨bytes, hwrite, -⟩ := Step.ok_of_bind hknown
  exact ⟨bytes, hwrite⟩

theorem mem_values_iff {e : Entry} : e ∈ m.entries.values ↔ ∃ p, m.entries.get? p = some e := by
  simp only [OrderedMap.values, List.mem_map, Prod.exists, exists_eq_right,
    OrderedMap.mem_toList_iff]

/-- A module holds all that it hands out, and its other entries. -/
theorem holds_of_mem (hm : m.toDraft.Filled) (h : m.configEntries? = .ok cs) {e : Entry}
    (he : e ∈ cs ++ m.entries.values) : m.toDraft.Holds e := by
  rcases List.mem_append.1 he with he | he
  · obtain ⟨known, c, bytes, hc, hwrite, rfl⟩ := (mem_of_configEntries? h).1 he
    exact .decoded known.ofPath?_path rfl (WellKnown.read?_of_write? (hm.fits known c hc) hwrite) hc
  · obtain ⟨p, hp⟩ := mem_values_iff.1 he
    have hpath : e.path = p := hm.keyed p e hp
    exact .kept (hpath ▸ hm.plain p e hp) (hpath ▸ hp)

/-- A draft that holds all of that has all that the module has. -/
theorem below_of_holds (hm : m.toDraft.Filled) (h : m.configEntries? = .ok cs) {d : Draft}
    (hname : d.name = m.name) (hcontext : d.context = m.context)
    (hd : ∀ e ∈ cs ++ m.entries.values, d.Holds e) :
    m.toDraft.Below d := by
  refine ⟨hname.symm, hcontext.symm, ?_, ?_⟩
  · intro p e hp
    have hpath : e.path = p := hm.keyed p e hp
    cases hd e (List.mem_append_right cs (mem_values_iff.2 ⟨p, hp⟩)) with
    | kept plain held => rwa [hpath] at held
    | decoded path content read held =>
      rw [hpath, hm.plain p e hp] at path
      cases path
  · intro known c hc
    obtain ⟨bytes, hwrite⟩ := write?_of_configEntries? h hc
    have hmem : Entry.ofBytes known.path bytes ∈ cs :=
      (mem_of_configEntries? h).2 ⟨known, c, bytes, hc, hwrite, rfl⟩
    have hread := WellKnown.read?_of_write? (hm.fits known c hc) hwrite
    cases hd _ (List.mem_append_left _ hmem) with
    | kept plain held =>
      rw [show (Entry.ofBytes known.path bytes).path = known.path from rfl,
        known.ofPath?_path] at plain
      cases plain
    | decoded path content read held =>
      cases known.ofPath?_path.symm.trans path
      cases content
      cases hread.symm.trans read
      exact held

/-- A module that was built of entries can be rebuilt: what it hands out and its
other entries, added to a new draft in any order, make the same module. -/
theorem build?_of_configEntries? {name : String} {context : Context} {es es' : List Entry}
    (hbuild : (Draft.addAll { name, context } es).1.build? = .ok m)
    (h : m.configEntries? = .ok cs) (horder : es'.Perm (cs ++ m.entries.values)) :
    ∃ d, Draft.addAll { name := m.name, context := m.context } es' = (d, .ok ()) ∧
      d.build? = .ok m := by
  have hdraft := Draft.toDraft_of_build? hbuild
  have hm : m.toDraft.Filled := hdraft ▸ (Draft.Filled.start name context).addAll
  have hempty : Draft.Below { name := m.name, context := m.context } m.toDraft := by
    refine ⟨rfl, rfl, ?_, ?_⟩
    · intro p e he
      cases he
    · intro known c hc
      cases known <;> cases hc
  obtain ⟨d, hadd, -, hbelow, hholds⟩ := Draft.addAll_of_holds hempty
    fun e he => holds_of_mem hm h (horder.mem_iff.1 he)
  have habove := below_of_holds hm h hbelow.name_eq hbelow.context_eq
    fun e he => hholds e (horder.mem_iff.2 he)
  refine ⟨d, hadd, ?_⟩
  rw [hbelow.antisymm habove, hdraft]
  exact hbuild

/-- The bytes of a manifest with one attribute. -/
def packageManifest : Bytes :=
  let root : Xml.Element :=
    { name := "manifest", attributes := [{ name := "package", raw := "app" }] }
  (Manifest.toBytes ⟨root, rfl, rfl⟩).toOption.getD []

/-- The bytes of a configuration of assets in two formats, the second one left out. -/
def astcAssets : Bytes :=
  let texture : Targeting TextureFormat := ⟨.ofList [.astc], .ofList [.etc1Rgb8]⟩
  (AssetsConfig.format.toBytes ⟨[{ path := "assets/astc", texture }]⟩).toOption.getD []

/-- Entries of which two stand at one path, and two at well-known ones. -/
def assetEntries : List Entry := [
  .ofBytes ⟨["assets", "astc", "leaf"], by decide⟩ [1],
  .ofBytes WellKnown.assets.path astcAssets,
  .ofBytes ⟨["assets", "astc", "leaf"], by decide⟩ [2],
  .ofBytes WellKnown.manifest.path packageManifest]

theorem build?_of_configEntries?_assetEntries :
    ∃ m cs d, (Draft.addAll { name := "leaves", context := {} } assetEntries).1.build? = .ok m ∧
      m.configEntries? = .ok cs ∧
      Draft.addAll { name := m.name, context := m.context } (cs ++ m.entries.values).reverse =
        (d, .ok ()) ∧ d.build? = .ok m := by
  obtain ⟨cs, h⟩ : ∃ cs, ((Draft.addAll { name := "leaves", context := {} }
      assetEntries).1.build? >>= (·.configEntries?)) = .ok cs :=
    Step.ok_of_isOk (by decide +kernel)
  obtain ⟨m, hbuild, hcs⟩ := Step.ok_of_bind h
  obtain ⟨d, hadd, hd⟩ := build?_of_configEntries? hbuild hcs (List.reverse_perm _)
  exact ⟨m, cs, d, hbuild, hcs, hadd, hd⟩

end Module

end AppBundle
