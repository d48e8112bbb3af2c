import AppBundle.Context
import AppBundle.Manifest.Basic
import AppBundle.Module.Config
import AppBundle.Module.Entry
import AppBundle.Ordered.Map

/-!
# Modules

A module has a manifest, configurations, and any number of other entries, each
under its path.  It is built in two steps: a `Draft` collects what is given,
and `Draft.build?` checks that a module can be made of it.

Six paths are well known.  An entry at one of them is never kept as it is: its
bytes are decoded at once and become the manifest or a configuration.
-/

namespace AppBundle

/-! ## Well-known paths -/

/-- What an entry at a well-known path holds. -/
inductive WellKnown where
  /-- The manifest. -/
  | manifest
  /-- The resource table. -/
  | table
  /-- The native libraries. -/
  | native
  /-- The assets. -/
  | assets
  /-- The system images. -/
  | apex
  /-- The SDKs. -/
  | sdk
deriving DecidableEq, Repr

namespace WellKnown

/-- All well-known contents. -/
def all : List WellKnown := [manifest, table, native, assets, apex, sdk]

/-- The path of a well-known content. -/
def path : WellKnown → Path
  | manifest => ⟨["manifest", "AndroidManifest.xml"], by decide⟩
  | table => ⟨["resources.pb"], by decide⟩
  | native => ⟨["native.pb"], by decide⟩
  | assets => ⟨["assets.pb"], by decide⟩
  | apex => ⟨["apex.pb"], by decide⟩
  | sdk => ⟨["runtime_enabled_sdk_config.pb"], by decide⟩

/-- What a path is known for. -/
def ofPath? (p : Path) : Option WellKnown := all.find? (·.path = p)

end WellKnown

/-! ## Types -/

/-- The entries of a module that are not well known, each under its path. -/
abbrev Entries := OrderedMap Path Entry

/-- What a module has in common with its draft. -/
structure Contents where
  /-- The name of the module. -/
  name : String
  /-- The settings of the bundle. -/
  context : Context
  /-- The entries. -/
  entries : Entries := ∅
  /-- The configurations. -/
  configs : Configs := {}

/-- A module in the making. -/
structure Draft extends Contents where
  /-- The manifest, if it was given. -/
  manifest : Option Manifest := none

/-- A module. -/
structure Module extends Contents where
  /-- The manifest. -/
  manifest : Manifest

/-! ## Drafts -/

namespace Draft

/-- Changes the configurations of a draft. -/
def configure (d : Draft) (f : Configs → Configs) : Draft := { d with configs := f d.configs }

/-- Decodes the bytes at a well-known path into the draft. -/
def decode? (d : Draft) (bytes : Bytes) : WellKnown → Except BundleError Draft
  | .manifest => (Manifest.ofBytes? bytes).map fun m => { d with manifest := some m }
  | .table => (Resource.Table.ofBytes? bytes).map fun t => d.configure ({ · with table := some t })
  | .native =>
    (NativeConfig.format.ofBytes? bytes).map fun c => d.configure ({ · with native := some c })
  | .assets =>
    (AssetsConfig.format.ofBytes? bytes).map fun c => d.configure ({ · with assets := some c })
  | .apex => (ApexConfig.format.ofBytes? bytes).map fun c => d.configure ({ · with apex := some c })
  | .sdk => (SdkConfig.format.ofBytes? bytes).map fun c => d.configure ({ · with sdk := some c })

/-- The draft with an entry under its path, whatever the path. -/
def insert (d : Draft) (e : Entry) : Draft := { d with entries := d.entries.insert e.path e }

/-- The draft with one more entry.  An error of decoding names the path. -/
def add? (d : Draft) (e : Entry) : Except BundleError Draft :=
  match WellKnown.ofPath? e.path with
  | none => .ok (d.insert e)
  | some known => do
    let bytes ← e.content
    match d.decode? bytes known with
    | .ok d => return d
    | .error fault => throw (fault.atPath e.path.toText)

/-- The draft with more entries, up to the first that cannot be added. -/
def addAll (d : Draft) : List Entry → Draft × Except BundleError Unit
  | [] => (d, .ok ())
  | e :: es =>
    match d.add? e with
    | .ok d => addAll d es
    | .error fault => (d, .error fault)

/-- The draft without the entry under a path. -/
def erase (d : Draft) (p : Path) : Draft := { d with entries := d.entries.erase p }

/-- The module of a draft. -/
def build? (d : Draft) : Except BundleError Module :=
  if Xml.isIdentifier d.name then
    match d.manifest with
    | some manifest => .ok { d.toContents with manifest }
    | none => .error (.invalidBundle (.missingManifest d.name WellKnown.manifest.path.toText))
  else .error (.invalidBundle (.moduleName d.name))

end Draft

namespace Module

/-- The draft that the module is built from. -/
def toDraft (m : Module) : Draft := { m.toContents with manifest := some m.manifest }

/-! ## Entries -/

/-- The entry under a path. -/
def entry? (m : Module) (p : Path) : Option Entry := m.entries.get? p

/-- The entries whose path passes a test, in the order of the paths. -/
def find (m : Module) (p : Path → Bool) : List Entry := m.entries.values.filter fun e => p e.path

/-- The entries at or below a path, in the order of the paths. -/
def under (m : Module) (p : Path) : List Entry := m.find (·.startsWith p)

/-- The entry that holds a well-known content. -/
def entryOf? {α : Type} (known : WellKnown) (write : α → Except BundleError Bytes) :
    Option α → Except BundleError (List Entry)
  | none => .ok []
  | some a => do return [.ofBytes known.path (← write a)]

/-- The entries that hold the manifest and the configurations. -/
def configEntries? (m : Module) : Except BundleError (List Entry) := do
  let manifest ← entryOf? .manifest Manifest.toBytes (some m.manifest)
  let table ← entryOf? .table Resource.Table.toBytes m.configs.table
  let native ← entryOf? .native NativeConfig.format.toBytes m.configs.native
  let assets ← entryOf? .assets AssetsConfig.format.toBytes m.configs.assets
  let apex ← entryOf? .apex ApexConfig.format.toBytes m.configs.apex
  let sdk ← entryOf? .sdk SdkConfig.format.toBytes m.configs.sdk
  return [manifest, table, native, assets, apex, sdk].flatten

end Module

end AppBundle
