import AppBundle.Bytes
import AppBundle.Path

/-!
# Entries of a module

An entry is a file or a directory at a path.  Its bytes may be in memory or be
fetched from elsewhere when they are needed, and then fetching can fail: the
content of an entry is its bytes, or the error that stands in their place.
-/

namespace AppBundle

/-- A file or directory of a module. -/
structure Entry where
  /-- Where the entry stands. -/
  path : Path
  /-- The bytes, or why they cannot be had. -/
  content : Except BundleError Bytes
  /-- Whether the entry is a directory. -/
  isDirectory : Bool := false
  /-- Whether the entry must not be compressed. -/
  uncompressed : Bool := false

namespace Entry

/-- A file with these bytes. -/
def ofBytes (path : Path) (bytes : Bytes) : Entry := { path, content := .ok bytes }

/-- A directory. -/
def directory (path : Path) : Entry := { path, content := .ok [], isDirectory := true }

/-- A file whose data are gone. -/
def vanished (path : Path) : Entry :=
  { path, content := .error (.decode (some path.toText) .sourceGone) }

/-- The entry with other bytes. -/
def withBytes (e : Entry) (bytes : Bytes) : Entry := { e with content := .ok bytes }

/-- The number of bytes. -/
def size? (e : Entry) : Except BundleError Nat := e.content.map List.length

/-- Whether two entries agree in everything.  Their bytes are compared only when all else agrees. -/
def same? (e f : Entry) : Except BundleError Bool :=
  if e.path = f.path ∧ e.isDirectory = f.isDirectory ∧ e.uncompressed = f.uncompressed then do
    return (← e.content) == (← f.content)
  else .ok false

end Entry

end AppBundle
