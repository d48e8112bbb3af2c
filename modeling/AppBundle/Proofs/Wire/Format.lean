import AppBundle.Proofs.Ordered
import AppBundle.Wire.Format

/-!
# Formats give back what they write

A format is lawful when every value that it writes is read back, whatever bytes
follow (`Format.Lawful`).  That the rest is left untouched is what lets formats
be put together: each combinator of lawful formats is lawful.

A choice writes its value with one of several formats, each of which knows the
values of one kind only.  So a format by itself is asked about a single value
(`Format.ReadsBack`), and a choice is lawful when each of its formats reads back
the values of its own kind (`Lawful.choice`).
-/

namespace AppBundle.Wire.Format

variable {α β : Type} {F : Format α} {G : Format β}

/-- When a value is written, it is read back and the bytes that follow are left. -/
def ReadsBack (F : Format α) (a : α) : Prop :=
  ∀ bs rest, F.write a = some bs → F.read (bs ++ rest) = some (a, rest)

/-- Every value is read back. -/
def Lawful (F : Format α) : Prop := ∀ a, F.ReadsBack a

/-! ## Parts and wholes -/

theorem ReadsBack.via {toRaw : β → α} {ofRaw? : α → Option β} {b : β}
    (hF : F.ReadsBack (toRaw b)) (hraw : ofRaw? (toRaw b) = some b) :
    (F.via toRaw ofRaw?).ReadsBack b := by
  intro bs rest h
  simp [Format.via, hF bs rest h, hraw]

theorem Lawful.via (hF : F.Lawful) {toRaw : β → α} {ofRaw? : α → Option β}
    (hraw : ∀ b, ofRaw? (toRaw b) = some b) : (F.via toRaw ofRaw?).Lawful :=
  fun b => (hF (toRaw b)).via (hraw b)

theorem Lawful.pair (hF : F.Lawful) (hG : G.Lawful) : (F.pair G).Lawful := by
  rintro ⟨a, b⟩ bs rest h
  obtain ⟨front, hfront, h⟩ := Option.bind_eq_some_iff.1 h
  obtain ⟨back, hback, h⟩ := Option.bind_eq_some_iff.1 h
  cases h
  simp [Format.pair, hF a front _ hfront, hG b back _ hback]

theorem ReadsBack.case {b : β} {a : α} (hG : G.ReadsBack b) {make : β → α}
    {content? : α → Option β} (hcontent : content? a = some b) (hmake : make b = a) :
    (G.case make content?).ReadsBack a := by
  intro bs rest h
  have hwrite : G.write b = some bs := by
    simpa [Format.case, hcontent] using h
  simp [Format.case, hG bs rest hwrite, hmake]

theorem readsBack_constant (a : α) : (constant a).ReadsBack a := by
  intro bs rest h
  cases h
  rfl

/-- A choice is lawful when the format of each kind reads back the values of the kind. -/
theorem Lawful.choice {kind : Format Nat} (hkind : kind.Lawful) {index : α → Nat}
    {cases : List (Format α)} (hcases : ∀ a F, cases[index a]? = some F → F.ReadsBack a) :
    (choice kind index cases).Lawful := by
  intro a bs rest h
  obtain ⟨F, hF, h⟩ := Option.bind_eq_some_iff.1 h
  obtain ⟨front, hfront, h⟩ := Option.bind_eq_some_iff.1 h
  obtain ⟨back, hback, h⟩ := Option.bind_eq_some_iff.1 h
  cases h
  simp [Format.choice, hkind _ front _ hfront, hF, hcases a F hF back _ hback]

/-! ## Numbers -/

theorem lawful_number (width : Nat) : (number width).Lawful := by
  intro n bs rest h
  simp only [number] at h
  split at h
  · rename_i hlt
    cases h
    have hsplit := Bytes.split?_append (Bytes.ofNat width n) rest
    rw [Bytes.length_ofNat] at hsplit
    simp [number, hsplit, Bytes.toNat_ofNat_of_lt hlt]
  · cases h

theorem lawful_word : word.Lawful :=
  (lawful_number 4).via fun _ => congrArg some UInt32.ofNat_toNat

theorem lawful_signed : signed.Lawful :=
  lawful_word.via fun n => congrArg some n.toInt32_toUInt32

theorem lawful_boolean : boolean.Lawful :=
  (lawful_number 1).via fun b => by cases b <;> rfl

/-! ## Lengths in front -/

theorem lawful_bytes : bytes.Lawful := by
  intro a bs rest h
  obtain ⟨front, hfront, h⟩ := Option.bind_eq_some_iff.1 h
  cases h
  simp [bytes, lawful_number 8 _ front _ hfront]

theorem lawful_text : text.Lawful :=
  lawful_bytes.via fun s => dif_pos s.isValidUTF8

/-- Values in a row are read back, one after the other. -/
theorem readAll_append (hF : F.Lawful) {as : List α} {bs : Bytes} (rest : Bytes)
    (h : F.writeAll as = some bs) : F.readAll as.length (bs ++ rest) = some (as, rest) := by
  induction as generalizing bs with
  | nil =>
    cases h
    rfl
  | cons a as ih =>
    obtain ⟨front, hfront, h⟩ := Option.bind_eq_some_iff.1 h
    obtain ⟨back, hback, h⟩ := Option.bind_eq_some_iff.1 h
    cases h
    simp [readAll, hF a front _ hfront, ih hback]

theorem Lawful.list (hF : F.Lawful) : F.list.Lawful := by
  intro as bs rest h
  obtain ⟨front, hfront, h⟩ := Option.bind_eq_some_iff.1 h
  obtain ⟨back, hback, h⟩ := Option.bind_eq_some_iff.1 h
  cases h
  simp [Format.list, lawful_number 8 _ front _ hfront, readAll_append hF rest hback]

theorem Lawful.set [LT α] [DecidableLT α] [LE α] [Std.IsLinearOrder α] [Std.LawfulOrderLT α]
    (hF : F.Lawful) : F.set.Lawful :=
  hF.list.via fun s => congrArg some (OrderedSet.ofList_toList s)

theorem Lawful.optional (hF : F.Lawful) : F.optional.Lawful := by
  refine (lawful_number 1).choice ?_
  intro a G hG
  cases a with
  | none =>
    cases hG
    exact readsBack_constant none
  | some a =>
    cases hG
    exact (hF a).case rfl rfl

/-! ## Whole values -/

theorem write_of_toBytes {a : α} {bs : Bytes} (h : F.toBytes a = .ok bs) : F.write a = some bs := by
  simp only [toBytes] at h
  split at h
  · rename_i hwrite
    cases h
    exact hwrite
  · cases h

/-- A value is read back whatever follows its bytes. -/
theorem Lawful.ofBytes?_append (hF : F.Lawful) {a : α} {bs : Bytes} (h : F.toBytes a = .ok bs)
    (tail : Bytes) : F.ofBytes? (bs ++ tail) = .ok a := by
  rw [ofBytes?, hF a bs tail (write_of_toBytes h)]

theorem Lawful.ofBytes?_of_toBytes (hF : F.Lawful) {a : α} {bs : Bytes}
    (h : F.toBytes a = .ok bs) : F.ofBytes? bs = .ok a := by
  have hread := hF.ofBytes?_append h []
  rwa [List.append_nil] at hread

end AppBundle.Wire.Format
