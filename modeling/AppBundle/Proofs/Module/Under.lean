import AppBundle.Proofs.Module.Built
import AppBundle.Proofs.Path.Affix

/-!
# Entries at or below a path

The entries of a module are listed in the order of their keys.  In a module that was
built each entry stands under its own path, so that is the order of their paths
(`Module.Built.ascending`).  Those at or below a path are the ones whose path continues
it (`Module.mem_under_iff`).  Both rest on what it is for a path to begin with another,
and all of it is stated together (`Path.affixes_exact`).
-/

namespace AppBundle

namespace Module

variable {m : Module}

/-- A module that was built lists its entries in the order of their paths. -/
theorem Built.ascending (h : m.Built) : m.entries.values.Pairwise (·.path < ·.path) := by
  have hkeyed : ∀ b ∈ m.entries.toList, b.2.path = b.1 := fun b hb =>
    h.path_eq (OrderedMap.mem_toList_iff.1 hb)
  refine List.pairwise_map.2 (m.entries.ascending.imp_of_mem ?_)
  intro b c hb hc hlt
  rwa [hkeyed b hb, hkeyed c hc]

theorem mem_under_iff {p : Path} {e : Entry} :
    e ∈ m.under p ↔ e ∈ m.entries.values ∧ ∃ r, e.path = p.resolve r := by
  rw [under, find, List.mem_filter, Path.startsWith_iff]

end Module

/-- A path begins with another when it is the other one continued, and ends with another
when it continues one with that.  In texts it begins with the empty path, with itself,
and with what stands before a separator.  To begin with a path is a partial order, within
the order of paths.  A path that is not empty is its parent continued with its file name,
and its siblings are its parent continued.  Of a module that was built, the entries at or
below a path are those whose path continues it, in the order of their paths. -/
theorem Path.affixes_exact :
    (∀ p q : Path,
      (p.startsWith q ↔ ∃ r, p = q.resolve r) ∧
      (p.startsWith q ↔
        q = root ∨ p.toText = q.toText ∨ ∃ rest, p.toText = q.toText ++ "/" ++ rest) ∧
      (p.endsWith q ↔ ∃ r : Path, p = r.resolve q)) ∧
    ((∀ p : Path, p.startsWith p) ∧
      (∀ p q : Path, p.startsWith q → q.startsWith p → p = q) ∧
      (∀ p q r : Path, p.startsWith q → q.startsWith r → p.startsWith r) ∧
      ∀ p q : Path, p.startsWith q → q ≤ p) ∧
    (∀ p : Path, p ≠ root → ∃ parent name, p.parent? = some parent ∧ p.fileName? = some name ∧
      parent.resolve name = p ∧ ∀ q, p.resolveSibling? q = .ok (parent.resolve q)) ∧
    ∀ m : Module, m.Built → ∀ q, (m.under q).Pairwise (·.path < ·.path) ∧
      ∀ e, e ∈ m.under q ↔ e ∈ m.entries.values ∧ ∃ r, e.path = q.resolve r := by
  refine ⟨fun p q => ⟨startsWith_iff, startsWith_iff_toText, endsWith_iff⟩,
    ⟨startsWith_refl, fun _ _ => startsWith_antisymm, fun _ _ _ => startsWith_trans,
      fun _ _ => le_of_startsWith⟩, fun p hp => ?_, fun m hm q => ⟨?_, ?_⟩⟩
  · obtain ⟨parent, name, hparent, hname, hresolve⟩ := exists_parent?_fileName? hp
    refine ⟨parent, name, hparent, hname, hresolve, fun q => ?_⟩
    rw [resolveSibling?, hparent]
  · exact hm.ascending.filter _
  · exact fun _ => Module.mem_under_iff

/-- A directory. -/
def Path.lib : Path := ⟨["lib"], by decide⟩

/-- A file in it. -/
def Path.libFile : Path := ⟨["lib", "a"], by decide⟩

/-- A directory whose path stands between the two as a text. -/
def Path.libTwin : Path := ⟨["lib-2"], by decide⟩

/-- A manifest with code. -/
def libManifest : Manifest where
  root := { name := "manifest", children := [.element { name := "application" } []] }
  name_eq := rfl
  namespace_eq := rfl

/-- A draft with all three. -/
def libDraft : Draft :=
  let d : Draft := { name := "base", context := {}, manifest := some libManifest }
  let d := d.insert (.directory Path.libTwin)
  (d.insert (.ofBytes Path.libFile [1])).insert (.directory Path.lib)

theorem Path.affixes_exact_libDraft :
    (∃ parent name, libFile.parent? = some parent ∧ libFile.fileName? = some name ∧
      parent.resolve name = libFile) ∧
    ∃ m, libDraft.build? = .ok m ∧ m.Built ∧ (m.under lib).map (·.path) = [lib, libFile] ∧
      (m.under lib).Pairwise (·.path < ·.path) ∧
      ∀ e ∈ m.under lib, ∃ r, e.path = lib.resolve r := by
  obtain ⟨-, -, hparts, hunder⟩ := affixes_exact
  constructor
  · obtain ⟨parent, name, hparent, hname, hresolve, -⟩ := hparts libFile (by decide)
    exact ⟨parent, name, hparent, hname, hresolve⟩
  · obtain ⟨m, hbuild, hpaths⟩ : ∃ m, libDraft.build? = .ok m ∧
        (m.under lib).map (·.path) = [lib, libFile] := ⟨_, rfl, by decide +kernel⟩
    have hstart : Draft.Reachable { name := "base", context := {}, manifest := some libManifest } :=
      .setManifest libManifest (.start "base" {})
    have hbuilt : m.Built :=
      ⟨libDraft, .insert rfl (.insert rfl (.insert rfl hstart)), hbuild⟩
    obtain ⟨hascending, hmem⟩ := hunder m hbuilt lib
    exact ⟨m, hbuild, hbuilt, hpaths, hascending, fun e he => ((hmem e).1 he).2⟩

end AppBundle
