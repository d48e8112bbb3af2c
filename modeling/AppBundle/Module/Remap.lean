import AppBundle.Module.Basic
import AppBundle.Resource.Remap

/-!
# Moving the package of a module

A module with a resource table can be moved to another package number.  Its
table moves, and so do the references in its manifest and in the XML documents
that its table lists.  Documents that are listed and not there are passed over;
everything else stays as it is.
-/

namespace AppBundle

open Resource Xml

/-- The entry of an XML document whose references follow packages to a new number. -/
def Entry.moveReferences? (old : List UInt32) (new : UInt32) (e : Entry) :
    Except BundleError Entry := do
  let bytes ← e.content
  match Binary.decode bytes with
  | .error fault => throw (.decode (some e.path.toText) (.xml fault))
  | .ok n =>
    match Binary.encode (n.moveReferences old new) with
    | .error fault => throw (.ofXml fault)
    | .ok bytes => return e.withBytes bytes

/-- The manifest whose references follow packages to a new number. -/
def Manifest.moveReferences (old : List UInt32) (new : UInt32) (m : Manifest) : Manifest where
  root := m.root.mapAttributes (·.mapReference (moveId old new))
  name_eq := m.name_eq
  namespace_eq := m.namespace_eq

namespace Module

/-- The module with its resources in the package of a new number. -/
def move? (m : Module) (new : UInt32) : Except BundleError Module := do
  checkPackageId new
  match m.configs.table with
  | none => return m
  | some table =>
    let old := table.packageIds
    let moved ← table.move? new
    let paths ← table.xmlPaths?
    let entries ← (paths.toList.filterMap m.entry?).mapM (·.moveReferences? old new)
    return { m with
      configs := { m.configs with table := some moved }
      manifest := m.manifest.moveReferences old new
      entries := entries.foldl (fun es e => es.insert e.path e) m.entries }

end Module

end AppBundle
