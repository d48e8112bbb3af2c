import AppBundle.Proofs.Manifest.Answer
import AppBundle.Proofs.Xml.Binary.Decoded
import AppBundle.Proofs.Xml.Edited
import AppBundle.Proofs.Xml.Markup.Parsed

/-!
# Manifests that were read and edited

A manifest comes out of a text document or a binary one, and may be edited any
number of times (`Manifest.Made`).  Whatever the edits, the tree stays within
what a binary document can say (`Manifest.Made.canonical`): reading builds such
a tree, and each edit keeps it (`Manifest.canonical_apply`).  So a manifest
that can be written is read back as it was (`Manifest.ofBytes?_toBytes`).
-/

namespace AppBundle.Manifest

open Xml

variable {m : Manifest}

/-! ## One edit -/

theorem canonical_newMetaData (name : String) : (newMetaData name).toNode.Canonical :=
  Element.canonical_alterAndroid (Node.Started.bare "" "meta-data").canonical
    (Attribute.isSetter_setText name) "name" (by decide)

/-- Every edit keeps the element of its slot canonical. -/
theorem canonical_change {e : Element} (edit : Edit) (h : e.toNode.Canonical) :
    (edit.change e).toNode.Canonical := by
  have hset : ∀ {name : String} {id : UInt32} {f : Attribute → Attribute}, id ≠ 0 →
      Attribute.IsSetter f → (e.alterAndroid name id f).toNode.Canonical :=
    fun hid hf => Element.canonical_alterAndroid h hf _ hid
  cases edit with
  | package name => exact Element.canonical_alter h (Attribute.isSetter_setText name) "" "package"
  | split name => exact Element.canonical_alter h (Attribute.isSetter_setText name) "" "split"
  | noSplit => exact Element.canonical_erase h "" "split"
  | versionCode number => exact hset (by decide) (Attribute.isSetter_setDecimal number)
  | minSdk version => exact hset (by decide) (Attribute.isSetter_setDecimal version)
  | targetSdk version => exact hset (by decide) (Attribute.isSetter_setDecimal version)
  | hasCode value => exact hset (by decide) (Attribute.isSetter_setBoolean value)
  | featureSplit value => exact hset (by decide) (Attribute.isSetter_setBoolean value)
  | fusedModules names => exact hset (by decide) (Attribute.isSetter_setText _)
  | switch setting on =>
    cases setting with
    | extractNativeLibs => exact hset (by decide) (Attribute.isSetter_setBoolean on)
    | splitsRequired => exact hset (by decide) (Attribute.isSetter_setBoolean on)

/-- Every edit keeps the tree canonical. -/
theorem canonical_apply {root : Element} (edit : Edit) (h : root.toNode.Canonical) :
    (edit.apply root).toNode.Canonical := by
  rw [Node.canonical_toNode] at h ⊢
  rw [edit.apply_eq]
  refine Slot.allTags_alter (fun e he => ?_) (fun name => (Node.Started.bare "" name).tag)
    (fun name => (Node.canonical_toNode.1 (canonical_newMetaData name)).tag) h
  exact Node.canonical_toNode.1 (canonical_change edit (Node.canonical_toNode.2 he))

/-! ## Many edits -/

theorem canonical_edit (edits : List Edit) (h : m.toNode.Canonical) :
    (m.edit edits).toNode.Canonical := by
  induction edits generalizing m with
  | nil => exact h
  | cons edit edits ih => exact ih (m := m.editOnce edit) (canonical_apply edit h)

/-- The ways to a manifest. -/
inductive Made : Manifest → Prop where
  /-- It is read from a text document. -/
  | ofText {text : String} {m : Manifest} (read : ofText? text = .ok m) : Made m
  /-- It is read from a binary document. -/
  | ofBytes {bs : Bytes} {m : Manifest} (read : ofBytes? bs = .ok m) : Made m
  /-- It is edited. -/
  | edit {m : Manifest} (made : Made m) (edits : List Edit) : Made (m.edit edits)

/-- A manifest of a document is the document. -/
theorem toNode_of_ofNode? {n : Node} (h : ofNode? n = .ok m) : m.toNode = n := by
  cases n with
  | text text => cases h
  | element tag children =>
    simp only [ofNode?] at h
    split at h
    · cases h
      rfl
    · cases h

theorem ofNode?_toNode (m : Manifest) : ofNode? m.toNode = .ok m :=
  dif_pos ⟨m.name_eq, m.namespace_eq⟩

theorem canonical_of_ofBytes? {bs : Bytes} (h : ofBytes? bs = .ok m) : m.toNode.Canonical := by
  simp only [ofBytes?] at h
  split at h
  · rename_i n hread
    rw [toNode_of_ofNode? h]
    exact Binary.canonical_of_decode hread
  · cases h

theorem canonical_of_ofText? {text : String} (h : ofText? text = .ok m) : m.toNode.Canonical := by
  simp only [ofText?] at h
  split at h
  · rename_i n hread
    rw [toNode_of_ofNode? h]
    exact Markup.canonical_of_parse hread
  · cases h

theorem Made.canonical (h : m.Made) : m.toNode.Canonical := by
  induction h with
  | ofText read => exact canonical_of_ofText? read
  | ofBytes read => exact canonical_of_ofBytes? read
  | edit made edits ih => exact canonical_edit edits ih

/-! ## Writing and reading -/

/-- A canonical manifest that can be written is read back as it was. -/
theorem ofBytes?_of_canonical (hm : m.toNode.Canonical) {bs : Bytes} (h : m.toBytes = .ok bs) :
    ofBytes? bs = .ok m := by
  simp only [toBytes] at h
  split at h
  · rename_i written hwrite
    cases h
    have hread : Binary.decode bs = .ok m.toNode := Binary.decode_encode_element hm.tags hwrite
    rw [ofBytes?, hread]
    exact ofNode?_toNode m
  · cases h

/-- However a manifest was read and edited, if it can be written it is read back as it was. -/
theorem ofBytes?_toBytes (hm : m.Made) {bs : Bytes} (h : m.toBytes = .ok bs) :
    ofBytes? bs = .ok m :=
  ofBytes?_of_canonical hm.canonical h

/-- A text document in which one name stands within the namespace of the platform
and outside of it. -/
def draftText : String :=
  "<manifest xmlns:android=\"http://schemas.android.com/apk/res/android\" " ++
    "android:versionCode=\"0x10\" versionCode=\"7\"/>"

/-- Edits that find an attribute by its id, and that make elements and attributes. -/
def draftEdits : List Edit := [
  .versionCode 3, .noSplit, .split "en", .minSdk 21, .switch .splitsRequired true,
  .fusedModules ["base", "maps"], .switch .extractNativeLibs false, .versionCode 4]

theorem ofBytes?_toBytes_draftText :
    ∃ m bs, ofText? draftText = .ok m ∧ (m.edit draftEdits).toBytes = .ok bs ∧
      ofBytes? bs = .ok (m.edit draftEdits) := by
  obtain ⟨bs, h⟩ : ∃ bs, (ofText? draftText >>= fun m => (m.edit draftEdits).toBytes) = .ok bs :=
    Step.ok_of_isOk (by decide +kernel)
  obtain ⟨m, hread, hwrite⟩ := Step.ok_of_bind h
  exact ⟨m, bs, hread, hwrite, ofBytes?_toBytes (.edit (.ofText hread) draftEdits) hwrite⟩

end AppBundle.Manifest
