import AppBundle.FirstMatch
import AppBundle.Ordered.Boundary
import AppBundle.Ordered.Interval
import AppBundle.Resource.Table

/-!
# Allocating resource ids

New entries go to the first package of a table.  An entry goes to the first
type with the name asked for and gets the number after the highest one there.
When there is no such type, one is made: it gets the number with which the first
gap between those of the types starts.  Both take their place before those with
higher numbers.

An allocation can fail for want of a number, or because the package or the type
is out of range and gives no id.  A type that was made by then stays.
-/

namespace AppBundle.Resource

/-- The first number of the first gap that the numbers in use leave in a range. -/
def gapId? (used : List Nat) (low high : Nat) : Option UInt32 :=
  ((IntervalSet.ofList used).gaps low high).head?.map fun gap => UInt32.ofNat gap.first

/-- The number of a new type. -/
def freeTypeId? (types : List EntryType) : Option UInt32 := gapId? (types.map (·.id.toNat)) 1 0xff

namespace EntryType

/-- The number after the highest one of a type, or zero in a type without entries. -/
def nextId? (t : EntryType) : Option UInt32 :=
  match (t.entries.map (·.id.toNat)).max? with
  | none => some 0
  | some highest => if highest < 0xffff then some (UInt32.ofNat (highest + 1)) else none

/-- The type with one more entry, which stands where those with lower numbers stop. -/
def insert (t : EntryType) (e : Entry) : EntryType :=
  { t with entries := t.entries.insertIdx (boundary (·.id < e.id) t.entries) e }

end EntryType

namespace Package

/-- The first type with a name, and the package with it.  The type is made when
there is none. -/
def withType? (p : Package) (name : String) : Except BundleError (EntryType × Package) :=
  match p.types.find? (·.name == name) with
  | some t => .ok (t, p)
  | none =>
    match freeTypeId? p.types with
    | none => .error (.resourceExhausted (.typeIds p.id name))
    | some id =>
      let t : EntryType := { id, name, entries := [] }
      .ok (t, { p with types := p.types.insertIdx (boundary (·.id < id) p.types) t })

/-- The package with one more entry in the first type with a name. -/
def insert (p : Package) (type : String) (e : Entry) : Package :=
  { p with types := FirstMatch.modify (·.name == type) (·.insert e) p.types }

end Package

/-- A table with at least one package, whose first package is being filled. -/
structure Allocator where
  /-- The package that gets the new entries. -/
  package : Package
  /-- The packages after it. -/
  others : List Package

namespace Allocator

/-- Starts to fill a table, which must have a package. -/
def ofTable? : Table → Except BundleError Allocator
  | ⟨[]⟩ => .error (.invalidArgument .noPackage)
  | ⟨package :: others⟩ => .ok { package, others }

/-- The table as it stands. -/
def table (a : Allocator) : Table := ⟨a.package :: a.others⟩

/-- Adds an entry to a type and tells its id.  Its own number does not count. -/
def add (a : Allocator) (type : String) (e : Entry) : Except BundleError Id × Allocator :=
  match a.package.withType? type with
  | .error fault => (.error fault, a)
  | .ok (t, package) =>
    match t.nextId? with
    | none => (.error (.resourceExhausted (.entryIds package.id type)), { a with package })
    | some entryId =>
      match Id.compose? package.id t.id entryId with
      | .error fault => (.error fault, { a with package })
      | .ok id => (.ok id, { a with package := package.insert type { e with id := entryId } })

/-- Adds an XML document of the module. -/
def addXml (a : Allocator) (name : String) (path : Path) : Except BundleError Id × Allocator :=
  a.add "xml" (.file name path .xml)

end Allocator

end AppBundle.Resource
