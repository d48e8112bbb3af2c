import AppBundle.Error
import AppBundle.Ordered.ByKey

/-!
# Resource ids

A resource id is one word.  Its top byte is the package, the next byte the type
and the lower half the entry.  Packages and types count from one, entries from
zero.

`Id.compose?` packs the three numbers and `Id.ofWord?` takes a word apart; both
refuse a package or a type of zero, so an `Id` never has one.  Ids are ordered
as words, which is the order of package, then type, then entry.
-/

namespace AppBundle.Resource

/-- The id of a resource. -/
structure Id where
  /-- Package, type and entry in one word. -/
  word : UInt32
  /-- The package is not zero. -/
  package_pos : 0 < word.toNat / 0x1000000
  /-- The type is not zero. -/
  type_pos : 0 < word.toNat / 0x10000 % 0x100
deriving DecidableEq

/-- Checks the id of a package. -/
def checkPackageId (id : UInt32) : Except BundleError Unit :=
  if 1 ≤ id.toNat ∧ id.toNat ≤ 0xff then .ok () else .error (.invalidArgument (.packageId id))

/-- The word of three parts.  A package that does not fit the top byte loses its high bits. -/
def pack (package type entry : Nat) : UInt32 :=
  UInt32.ofNat (package * 0x1000000 + type * 0x10000 + entry)

namespace Id

@[ext] theorem ext {i j : Id} (h : i.word = j.word) : i = j := by
  cases i
  cases j
  cases h
  rfl

/-! ## Parts -/

/-- The package of a resource. -/
def package (i : Id) : UInt32 := i.word / 0x1000000

/-- The type of a resource. -/
def type (i : Id) : UInt32 := i.word / 0x10000 % 0x100

/-- The entry of a resource. -/
def entry (i : Id) : UInt32 := i.word % 0x10000

/-- The id of these parts.  The first part that is out of range is the fault. -/
def compose? (package type entry : UInt32) : Except BundleError Id :=
  if hp : 1 ≤ package.toNat ∧ package.toNat ≤ 0xff then
    if ht : 1 ≤ type.toNat ∧ type.toNat ≤ 0xff then
      if he : entry.toNat ≤ 0xffff then
        .ok {
          word := pack package.toNat type.toNat entry.toNat
          package_pos := by simp only [pack, UInt32.toNat_ofNat']; omega
          type_pos := by simp only [pack, UInt32.toNat_ofNat']; omega }
      else .error (.invalidArgument (.entryId entry))
    else .error (.invalidArgument (.typeId type))
  else .error (.invalidArgument (.packageId package))

/-- The id of a word. -/
def ofWord? (word : UInt32) : Except BundleError Id :=
  compose? (word / 0x1000000) (word / 0x10000 % 0x100) (word % 0x10000)

/-- An id as people read it. -/
def toText (i : Id) : String := "0x" ++ Text.hex 8 i.word.toNat

/-! ## Order -/

instance : LT Id := ⟨fun i j => i.word < j.word⟩

instance : LE Id := ⟨fun i j => ¬ j < i⟩

instance : DecidableLT Id := fun i j => inferInstanceAs (Decidable (i.word < j.word))

theorem ordered_word : ByKey.Ordered word where
  key_inj _ _ := ext
  lt_iff _ _ := Iff.rfl
  le_iff _ _ := Iff.rfl

instance : Std.IsLinearOrder Id :=
  ByKey.isLinearOrder ordered_word (fun _ _ => UInt32.lt_asymm)
    (fun _ _ _ hxy hyz =>
      UInt32.not_lt.2 (UInt32.le_trans (UInt32.not_lt.1 hyz) (UInt32.not_lt.1 hxy)))
    fun _ _ hxy hyx => UInt32.le_antisymm (UInt32.not_lt.1 hyx) (UInt32.not_lt.1 hxy)

instance : Std.LawfulOrderLT Id :=
  ByKey.lawfulOrderLT ordered_word fun _ _ => UInt32.lt_asymm

end Id

end AppBundle.Resource
