import AppBundle.Error
import AppBundle.Ordered.ByKey
import AppBundle.Text.Display

/-!
# ABIs

The instruction sets that native code is built for.  They are known by the
names of their directories, and ordered as they are listed here.
-/

namespace AppBundle

/-- An instruction set of native code. -/
inductive Abi where
  /-- ARM without hardware floating point. -/
  | armeabi
  /-- ARM, version 7. -/
  | armeabiV7a
  /-- ARM, 64 bits. -/
  | arm64V8a
  /-- Intel, 32 bits. -/
  | x86
  /-- Intel, 64 bits. -/
  | x86_64
  /-- MIPS, 32 bits. -/
  | mips
  /-- MIPS, 64 bits. -/
  | mips64
  /-- RISC-V, 64 bits. -/
  | riscv64
deriving DecidableEq, Repr

namespace Abi

/-- All ABIs, in order. -/
def all : List Abi := [armeabi, armeabiV7a, arm64V8a, x86, x86_64, mips, mips64, riscv64]

/-- The name of an ABI. -/
def name : Abi → String
  | armeabi => "armeabi"
  | armeabiV7a => "armeabi-v7a"
  | arm64V8a => "arm64-v8a"
  | x86 => "x86"
  | x86_64 => "x86_64"
  | mips => "mips"
  | mips64 => "mips64"
  | riscv64 => "riscv64"

instance : Text.Display Abi := ⟨name⟩

/-- The ABI with a name. -/
def named? (name : String) : Option Abi := all.find? (·.name == name)

/-- The ABI with a name, which must be known. -/
def ofName? (name : String) : Except BundleError Abi :=
  match named? name with
  | some abi => .ok abi
  | none => .error (.invalidArgument (.unknownAbi name))

/-! ## Order -/

/-- The place of an ABI in the list. -/
def rank : Abi → Nat
  | armeabi => 0
  | armeabiV7a => 1
  | arm64V8a => 2
  | x86 => 3
  | x86_64 => 4
  | mips => 5
  | mips64 => 6
  | riscv64 => 7

/-- The ABI at a place of the list. -/
def ofRank? (n : Nat) : Option Abi := all[n]?

theorem ofRank?_rank (a : Abi) : ofRank? a.rank = some a := by
  cases a <;> rfl

theorem eq_of_rank_eq {a b : Abi} (h : a.rank = b.rank) : a = b :=
  Option.some.inj (ofRank?_rank a ▸ ofRank?_rank b ▸ congrArg ofRank? h)

instance : LT Abi := ⟨fun a b => a.rank < b.rank⟩

instance : LE Abi := ⟨fun a b => ¬ b < a⟩

instance : DecidableLT Abi := fun a b => inferInstanceAs (Decidable (a.rank < b.rank))

theorem ordered_rank : ByKey.Ordered rank where
  key_inj _ _ := eq_of_rank_eq
  lt_iff _ _ := Iff.rfl
  le_iff _ _ := Iff.rfl

instance : Std.IsLinearOrder Abi :=
  ByKey.isLinearOrder ordered_rank (by omega) (by omega) (by omega)

instance : Std.LawfulOrderLT Abi := ByKey.lawfulOrderLT ordered_rank (by omega)

end Abi

end AppBundle
