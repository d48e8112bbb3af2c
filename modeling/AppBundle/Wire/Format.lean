import AppBundle.Bytes
import AppBundle.Error
import AppBundle.Ordered.Set

/-!
# Formats of records

A format writes a value as bytes and reads one back from the front of a list of
bytes, leaving the rest.  Formats of large values are put together from those
of their parts.

* A number has a fixed width and is little-endian.
* A text or a list has its length in front, a number of eight bytes.  The
  length of a text counts its UTF-8 bytes.
* An optional value has a byte in front that says whether it is there.
* One value of several kinds has the number of its kind in front, four bytes.
* A record is its fields in order, with nothing between them.

Writing fails only when a number is too large for its width.  Reading fails
when the bytes run out or stand for no value.
-/

namespace AppBundle.Wire

/-- A writer and a reader of the values of a type. -/
structure Format (α : Type) where
  /-- The bytes of a value. -/
  write : α → Option Bytes
  /-- The value at the front of the bytes, and the bytes after it. -/
  read : Bytes → Option (α × Bytes)

namespace Format

variable {α β γ : Type}

/-! ## Parts and wholes -/

/-- The format of a type whose values stand for some of those of another. -/
def via (F : Format α) (toRaw : β → α) (ofRaw? : α → Option β) : Format β where
  write b := F.write (toRaw b)
  read bs := do
    let (raw, rest) ← F.read bs
    let b ← ofRaw? raw
    return (b, rest)

/-- Two values in order. -/
def pair (F : Format α) (G : Format β) : Format (α × β) where
  write := fun (a, b) => return (← F.write a) ++ (← G.write b)
  read bs := do
    let (a, rest) ← F.read bs
    let (b, rest) ← G.read rest
    return ((a, b), rest)

/-- A value of one of several kinds, told apart by the number in front. -/
def choice (kind : Format Nat) (index : α → Nat) (cases : List (Format α)) : Format α where
  write a := do
    let F ← cases[index a]?
    return (← kind.write (index a)) ++ (← F.write a)
  read bs := do
    let (i, rest) ← kind.read bs
    let F ← cases[i]?
    F.read rest

/-- The values of one kind, which hold a value of another type. -/
def case (F : Format β) (make : β → α) (content? : α → Option β) : Format α where
  write a := (content? a).bind F.write
  read bs := (F.read bs).map fun (b, rest) => (make b, rest)

/-- A value that takes no bytes. -/
def constant (a : α) : Format α where
  write _ := some []
  read bs := some (a, bs)

/-! ## Numbers -/

/-- A number of a fixed width. -/
def number (width : Nat) : Format Nat where
  write n := if n < Bytes.capacity width then some (Bytes.ofNat width n) else none
  read bs := (Bytes.split? width bs).map fun (front, rest) => (Bytes.toNat front, rest)

/-- A word. -/
def word : Format UInt32 := (number 4).via UInt32.toNat fun n => some (UInt32.ofNat n)

/-- A signed word, in two's complement. -/
def signed : Format Int32 := word.via Int32.toUInt32 fun n => some n.toInt32

/-- A truth value: a byte that is 0 or 1. -/
def boolean : Format Bool :=
  (number 1).via Bool.toNat fun n =>
    if n = 0 then some false else if n = 1 then some true else none

/-! ## Lengths in front -/

/-- A run of bytes. -/
def bytes : Format Bytes where
  write bs := return (← (number 8).write bs.length) ++ bs
  read bs := do
    let (length, rest) ← (number 8).read bs
    Bytes.split? length rest

/-- A text in UTF-8. -/
def text : Format String :=
  bytes.via (fun s => s.toUTF8.data.toList) fun bs => String.fromUTF8? ⟨bs.toArray⟩

/-- Writes values one after the other. -/
def writeAll (F : Format α) : List α → Option Bytes
  | [] => some []
  | a :: as => return (← F.write a) ++ (← writeAll F as)

/-- Reads `count` values one after the other. -/
def readAll (F : Format α) : Nat → Bytes → Option (List α × Bytes)
  | 0, bs => some ([], bs)
  | count + 1, bs => do
    let (a, rest) ← F.read bs
    let (as, rest) ← readAll F count rest
    return (a :: as, rest)

/-- A list of values. -/
def list (F : Format α) : Format (List α) where
  write as := return (← (number 8).write as.length) ++ (← F.writeAll as)
  read bs := do
    let (count, rest) ← (number 8).read bs
    F.readAll count rest

/-- A set of values.  It is written in order and read from any list. -/
def set [LT α] [DecidableLT α] [LE α] [Std.IsLinearOrder α] [Std.LawfulOrderLT α]
    (F : Format α) : Format (OrderedSet α) :=
  F.list.via OrderedSet.toList fun as => some (OrderedSet.ofList as)

/-- A value that may be missing. -/
def optional (F : Format α) : Format (Option α) :=
  choice (number 1) (fun a => if a.isSome then 1 else 0) [constant none, F.case some id]

/-! ## Whole values -/

/-- The bytes of a value. -/
def toBytes (F : Format α) (a : α) : Except BundleError Bytes :=
  match F.write a with
  | some bs => .ok bs
  | none => .error (.decode none .layout)

/-- The value at the front of the bytes.  What stands after it does not count. -/
def ofBytes? (F : Format α) (bs : Bytes) : Except BundleError α :=
  match F.read bs with
  | some (a, _) => .ok a
  | none => .error (.decode none .layout)

end Format

end AppBundle.Wire
