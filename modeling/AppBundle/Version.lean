import AppBundle.Text.Cut
import AppBundle.Text.Numeral

/-!
# Versions

A version has three numbers, and perhaps a pre-release label and build
metadata: `1.15.6-rc.1+b7`.  Numbers fit 64 bits and have no leading zeros.
Labels and metadata are identifiers separated by dots, each made of ASCII
letters, digits and hyphens; a label that is a number has no leading zeros
either.

A pre-release comes before its release.  Build metadata never puts a version
before the same one without it.
-/

namespace AppBundle

/-- A version. -/
structure Version where
  /-- The first number. -/
  major : Nat
  /-- The second number. -/
  minor : Nat
  /-- The third number. -/
  patch : Nat
  /-- The label of a pre-release, empty for a release. -/
  pre : String := ""
  /-- The build metadata, empty for none. -/
  build : String := ""
deriving DecidableEq, Repr

namespace Version

/-! ## Reading -/

/-- A number of a version, written without leading zeros. -/
def number? (cs : List Char) : Option Nat :=
  if cs.head? = some '0' ∧ cs.length ≠ 1 then none
  else if cs.all Char.isDigit then (Text.natural? 10 cs).filter (· < UInt64.size)
  else none

/-- Whether the text is an identifier of build metadata. -/
def isBuildIdentifier (cs : List Char) : Bool :=
  !cs.isEmpty && cs.all fun c => c.isAlphanum || c == '-'

/-- Whether the text is an identifier of a pre-release label. -/
def isLabelIdentifier (cs : List Char) : Bool :=
  isBuildIdentifier cs && !(cs.all Char.isDigit && cs.head? == some '0' && cs.length != 1)

/-- Identifiers separated by dots, each of which passes a test; none at all for no text. -/
def identifiers? (test : List Char → Bool) : Option (List Char) → Option String
  | none => some ""
  | some cs => if (cs.splitOn '.').all test then some (String.ofList cs) else none

/-- The version that a text writes. -/
def ofText? (text : String) : Option Version := do
  let (front, build) := Text.cutAt (· == '+') text.toList
  let (numbers, pre) := Text.cutAt (· == '-') front
  match numbers.splitOn '.' with
  | [major, minor, patch] =>
    return {
      major := ← number? major
      minor := ← number? minor
      patch := ← number? patch
      pre := ← identifiers? isLabelIdentifier pre
      build := ← identifiers? isBuildIdentifier build }
  | _ => none

/-! ## Writing -/

/-- The text of a version. -/
def toText (v : Version) : String :=
  ".".intercalate ([v.major, v.minor, v.patch].map Text.decimal) ++
    (if v.pre = "" then "" else "-" ++ v.pre) ++ (if v.build = "" then "" else "+" ++ v.build)

/-! ## Order -/

/-- Whether the version does not come before the release with these numbers. -/
def isAtLeast (v : Version) (major minor patch : Nat) : Bool :=
  major < v.major || major == v.major &&
    (minor < v.minor || minor == v.minor &&
      (patch < v.patch || patch == v.patch && v.pre == ""))

end Version

end AppBundle
