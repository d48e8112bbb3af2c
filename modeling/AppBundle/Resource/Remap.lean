import AppBundle.Resource.Table
import AppBundle.Xml.Edit

/-!
# Moving packages

All packages of a table can be moved to one new number.  References in XML
documents follow: an id whose top byte is one of the old numbers gets the new
number there and keeps its lower bytes.  References inside the table stay as
they are.
-/

namespace AppBundle.Resource

/-- The id of a resource after the packages numbered `old` moved to `new`. -/
def moveId (old : List UInt32) (new : UInt32) (word : UInt32) : UInt32 :=
  if word / 0x1000000 ∈ old then UInt32.ofNat (new.toNat * 0x1000000 + word.toNat % 0x1000000)
  else word

/-- The table with every package under a new number. -/
def Table.move? (t : Table) (new : UInt32) : Except BundleError Table := do
  checkPackageId new
  return ⟨t.packages.map fun p => { p with id := new }⟩

end AppBundle.Resource

namespace AppBundle.Xml

open Resource

/-- The tree whose references follow packages to a new number. -/
def Node.moveReferences (old : List UInt32) (new : UInt32) (n : Node) : Node :=
  n.mapAttributes (·.mapReference (moveId old new))

end AppBundle.Xml
