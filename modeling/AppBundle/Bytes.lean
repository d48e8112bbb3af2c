/-!
# Bytes

Every binary format of the library is read from the front of a list of bytes
and written as one.  Numbers are little-endian: `Bytes.ofNat width n` writes the
low `width` digits of `n` in base 256, least significant first, and
`Bytes.toNat` gives the number back.

Reading is partial because the bytes may run out.  `Bytes.split?` takes a
stretch of known length, `Bytes.skip?` moves past one, and both say `none` when
there are too few bytes.  `Reader` is the step built from them.
-/

namespace AppBundle

/-- A run of bytes. -/
abbrev Bytes := List UInt8

namespace Bytes

/-! ## Numbers -/

/-- The `width` low bytes of `n`, least significant first. -/
def ofNat : Nat → Nat → Bytes
  | 0, _ => []
  | width + 1, n => UInt8.ofNat n :: ofNat width (n / 256)

/-- The number written by little-endian bytes. -/
def toNat : Bytes → Nat
  | [] => 0
  | b :: bs => b.toNat + 256 * toNat bs

/-- How many numbers `width` bytes can write. -/
def capacity : Nat → Nat
  | 0 => 1
  | width + 1 => 256 * capacity width

@[simp] theorem length_ofNat (width n : Nat) : (ofNat width n).length = width := by
  induction width generalizing n with
  | zero => rfl
  | succ width ih => simp [ofNat, ih]

theorem toNat_ofNat (width n : Nat) : toNat (ofNat width n) = n % capacity width := by
  induction width generalizing n with
  | zero => simp [ofNat, toNat, capacity, Nat.mod_one]
  | succ width ih =>
    have h : (UInt8.ofNat n).toNat = n % 256 := by simp
    rw [ofNat, toNat, ih, h, capacity, Nat.mod_mul]

theorem toNat_ofNat_of_lt {width n : Nat} (h : n < capacity width) :
    toNat (ofNat width n) = n := by
  rw [toNat_ofNat, Nat.mod_eq_of_lt h]

/-! ## Taking stretches -/

/-- The first `n` bytes and the rest, when there are that many. -/
def split? : Nat → Bytes → Option (Bytes × Bytes)
  | 0, bs => some ([], bs)
  | _ + 1, [] => none
  | n + 1, b :: bs => (split? n bs).map fun (front, rest) => (b :: front, rest)

/-- The bytes after the first `n`, when there are that many. -/
def skip? : Nat → Bytes → Option Bytes
  | 0, bs => some bs
  | _ + 1, [] => none
  | n + 1, _ :: bs => skip? n bs

theorem skip?_eq (n : Nat) (bs : Bytes) :
    skip? n bs = if n ≤ bs.length then some (bs.drop n) else none := by
  induction n generalizing bs with
  | zero => simp [skip?]
  | succ n ih =>
    cases bs with
    | nil => simp [skip?]
    | cons b bs => simp [skip?, ih]

theorem split?_eq (n : Nat) (bs : Bytes) :
    split? n bs = if n ≤ bs.length then some (bs.take n, bs.drop n) else none := by
  induction n generalizing bs with
  | zero => simp [split?]
  | succ n ih =>
    cases bs with
    | nil => simp [split?]
    | cons b bs =>
      by_cases h : n ≤ bs.length <;> simp [split?, ih, h]

@[simp] theorem split?_append (front rest : Bytes) :
    split? front.length (front ++ rest) = some (front, rest) := by
  simp [split?_eq]

theorem length_of_skip? {n : Nat} {bs rest : Bytes} (h : skip? n bs = some rest) :
    rest.length + n = bs.length := by
  rw [skip?_eq] at h
  split at h
  · cases h
    simp
    omega
  · contradiction

end Bytes

/-! ## Steps of a reader -/

/-- A step that reads from the front of the bytes and leaves the rest. -/
abbrev Reader (ε : Type) := StateT Bytes (Except ε)

namespace Reader

variable {ε : Type}

/-- Reads `n` bytes, failing with `short` when there are fewer. -/
def bytes (short : ε) (n : Nat) : Reader ε Bytes := fun bs =>
  match Bytes.split? n bs with
  | some (front, rest) => .ok (front, rest)
  | none => .error short

/-- Reads a little-endian number of `width` bytes. -/
def number (short : ε) (width : Nat) : Reader ε Nat :=
  Bytes.toNat <$> bytes short width

end Reader

end AppBundle
