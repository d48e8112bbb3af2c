import AppBundle.Path
import AppBundle.Resource.Id
import AppBundle.Wire.Format

/-!
# Resource tables

A table lists packages, a package lists types, a type lists entries, and an
entry has a value for each of some configurations.  The numbers of packages,
types and entries are kept as they are given; only where all three are in range
does an entry have a `Resource.Id`.

`Table.resources` is the flat view of a table, entry by entry; lookups and
collections are taken from it.  `Table.format` is the byte form.
-/

namespace AppBundle.Resource

/-! ## Types -/

/-- The kinds of files that a resource may be. -/
inductive FileKind where
  /-- A compiled XML document. -/
  | xml
  /-- A PNG image. -/
  | png
  /-- Any other file. -/
  | other
deriving DecidableEq, Repr

/-- The value of an entry under one configuration. -/
inductive Value where
  /-- A file of the module. -/
  | file (path : String) (kind : FileKind)
  /-- A text. -/
  | string (text : String)
  /-- Another resource. -/
  | reference (word : UInt32)
  /-- A truth value. -/
  | boolean (value : Bool)
  /-- A number. -/
  | integer (value : Int32)
deriving DecidableEq, Repr

/-- A value and the configuration that it is for. -/
structure ConfigValue where
  /-- The qualifiers of the configuration, empty for the default one. -/
  config : String
  /-- The value. -/
  value : Value
deriving DecidableEq, Repr

/-- An entry of a type. -/
structure Entry where
  /-- The number of the entry within its type. -/
  id : UInt32 := 0
  /-- The name of the entry. -/
  name : String
  /-- The values, one for each configuration. -/
  values : List ConfigValue
deriving DecidableEq, Repr

/-- A type of a package. -/
structure EntryType where
  /-- The number of the type within its package. -/
  id : UInt32
  /-- The name of the type. -/
  name : String
  /-- The entries. -/
  entries : List Entry
deriving DecidableEq, Repr

/-- A package of a table. -/
structure Package where
  /-- The number of the package. -/
  id : UInt32
  /-- The name of the package. -/
  name : String
  /-- The types. -/
  types : List EntryType
deriving DecidableEq, Repr

/-- A resource table. -/
structure Table where
  /-- The packages. -/
  packages : List Package
deriving DecidableEq, Repr

/-- An entry with one file for every configuration. -/
def Entry.file (name : String) (path : Path) (kind : FileKind) : Entry :=
  { name, values := [⟨"", .file path.toText kind⟩] }

/-- An entry together with where it stands. -/
structure Listing where
  /-- The id, where the numbers are in range. -/
  id : Option Id
  /-- The type that holds the entry. -/
  type : EntryType
  /-- The entry. -/
  entry : Entry

namespace Table

/-- A table with one empty package. -/
def ofPackage? (id : UInt32) (name : String) : Except BundleError Table := do
  checkPackageId id
  return ⟨[{ id, name, types := [] }]⟩

/-! ## Looking up -/

/-- The entries with their places, in the order of the table. -/
def resources (t : Table) : List Listing :=
  t.packages.flatMap fun package =>
    package.types.flatMap fun type =>
      type.entries.map fun entry =>
        ⟨(Id.compose? package.id type.id entry.id).toOption, type, entry⟩

/-- The first entry that stands under an id. -/
def entry? (t : Table) (i : Id) : Option Entry :=
  let types := (t.packages.filter (·.id = i.package)).flatMap (·.types)
  let entries := (types.filter (·.id = i.type)).flatMap (·.entries)
  entries.find? (·.id = i.entry)

/-- The id of the first entry with a name in a type with a name, if that entry has one. -/
def findId? (t : Table) (type entry : String) : Option Id :=
  (t.resources.find? fun r => r.type.name == type && r.entry.name == entry).bind (·.id)

/-- The ids of the entries. -/
def ids (t : Table) : OrderedSet Id := .ofList (t.resources.filterMap (·.id))

/-- The ids of the packages. -/
def packageIds (t : Table) : List UInt32 := t.packages.map (·.id)

/-! ## Files -/

/-- The files that the values name, with their kinds. -/
def files (t : Table) : List (String × FileKind) :=
  (t.resources.flatMap (·.entry.values)).filterMap fun v =>
    match v.value with
    | .file path kind => some (path, kind)
    | _ => none

/-- The paths of files that pass a test.  The first one that is no path is the error. -/
def pathsOf? (t : Table) (p : FileKind → Bool) : Except BundleError (OrderedSet Path) :=
  .ofList <$> (t.files.filter fun f => p f.2).mapM fun f => Path.ofText? f.1

/-- The paths of all files. -/
def filePaths? (t : Table) : Except BundleError (OrderedSet Path) := t.pathsOf? fun _ => true

/-- The paths of the compiled XML documents. -/
def xmlPaths? (t : Table) : Except BundleError (OrderedSet Path) := t.pathsOf? (· == .xml)

end Table

/-! ## Byte form -/

open Wire

/-- The format of file kinds. -/
def FileKind.format : Format FileKind :=
  (Format.number 4).via (fun | xml => 0 | png => 1 | other => 2)
    fun | 0 => some xml | 1 => some png | 2 => some other | _ => none

/-- The format of values. -/
def Value.format : Format Value :=
  .choice (.number 4)
    (fun
      | file _ _ => 0
      | string _ => 1
      | reference _ => 2
      | boolean _ => 3
      | integer _ => 4)
    [(Format.text.pair FileKind.format).case (fun (path, kind) => file path kind)
        (fun | file path kind => some (path, kind) | _ => none),
      Format.text.case string (fun | string s => some s | _ => none),
      Format.word.case reference (fun | reference w => some w | _ => none),
      Format.boolean.case boolean (fun | boolean b => some b | _ => none),
      Format.signed.case integer (fun | integer n => some n | _ => none)]

/-- The format of configured values. -/
def ConfigValue.format : Format ConfigValue :=
  (Format.text.pair Value.format).via (fun v => (v.config, v.value))
    fun (config, value) => some { config, value }

/-- The format of entries. -/
def Entry.format : Format Entry :=
  (Format.word.pair (Format.text.pair ConfigValue.format.list)).via
    (fun e => (e.id, e.name, e.values)) fun (id, name, values) => some { id, name, values }

/-- The format of types. -/
def EntryType.format : Format EntryType :=
  (Format.word.pair (Format.text.pair Entry.format.list)).via
    (fun t => (t.id, t.name, t.entries)) fun (id, name, entries) => some { id, name, entries }

/-- The format of packages. -/
def Package.format : Format Package :=
  (Format.word.pair (Format.text.pair EntryType.format.list)).via
    (fun p => (p.id, p.name, p.types)) fun (id, name, types) => some { id, name, types }

/-- The format of tables. -/
def Table.format : Format Table :=
  Package.format.list.via (·.packages) fun packages => some { packages }

/-- The bytes of a table. -/
def Table.toBytes (t : Table) : Except BundleError Bytes := Table.format.toBytes t

/-- The table that the bytes begin with. -/
def Table.ofBytes? (bs : Bytes) : Except BundleError Table := Table.format.ofBytes? bs

end AppBundle.Resource
