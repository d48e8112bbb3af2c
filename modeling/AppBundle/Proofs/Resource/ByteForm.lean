import AppBundle.Proofs.Module.Config
import AppBundle.Proofs.Reading
import AppBundle.Proofs.Wire.Delimited

/-!
# The bytes of a resource table

The format of tables is put together from stable parts, down to the five kinds of
values, so it is stable.  It is lawful as well.  So the bytes of a table say where
they end (`Table.ofBytes?_exact`): they are read back with anything behind them and
refused when their end is missing, and no table's bytes begin with those of another.
-/

namespace AppBundle.Resource

open Wire

theorem FileKind.stable_format : FileKind.format.Stable := (Format.stable_number 4).via _ _

/-- The values of each kind are read by a stable format. -/
theorem Value.stable_format : Value.format.Stable := by
  refine (Format.stable_number 4).choice _ ?_
  simp only [List.forall_mem_cons, List.not_mem_nil, false_implies, implies_true, and_true]
  exact ⟨(Format.stable_text.pair FileKind.stable_format).case _ _, Format.stable_text.case _ _,
    Format.stable_word.case _ _, Format.stable_boolean.case _ _, Format.stable_signed.case _ _⟩

theorem ConfigValue.stable_format : ConfigValue.format.Stable :=
  (Format.stable_text.pair Value.stable_format).via _ _

theorem Entry.stable_format : Entry.format.Stable :=
  (Format.stable_word.pair (Format.stable_text.pair ConfigValue.stable_format.list)).via _ _

theorem EntryType.stable_format : EntryType.format.Stable :=
  (Format.stable_word.pair (Format.stable_text.pair Entry.stable_format.list)).via _ _

theorem Package.stable_format : Package.format.Stable :=
  (Format.stable_word.pair (Format.stable_text.pair EntryType.stable_format.list)).via _ _

namespace Table

theorem stable_format : Table.format.Stable := Package.stable_format.list.via _ _

variable {t : Table} {bs : Bytes}

/-- The bytes of a table are read back whatever follows them, and no proper prefix of
them is read.  Of different tables neither has bytes that begin those of the other. -/
theorem ofBytes?_exact (h : t.toBytes = .ok bs) :
    (∀ tail, ofBytes? (bs ++ tail) = .ok t) ∧
      (∀ front, front <+: bs → front ≠ bs → ofBytes? front = .error (.decode none .layout)) ∧
      ∀ u bs', u ≠ t → u.toBytes = .ok bs' → ¬ bs <+: bs' ∧ ¬ bs' <+: bs := by
  refine ⟨lawful_format.ofBytes?_append h,
    fun front hfront => lawful_format.error_of_prefix stable_format h hfront, ?_⟩
  intro u bs' hne h'
  constructor
  · intro hbegins
    exact hne (lawful_format.eq_of_prefix h h' hbegins).symm
  · intro hbegins
    exact hne (lawful_format.eq_of_prefix h' h hbegins)

/-- A table with a value of each kind. -/
def mixedTable : Table := ⟨[{
  id := 0x7f
  name := "app"
  types := [{
    id := 1
    name := "mixed"
    entries := [{
      id := 3
      name := "é"
      values := [⟨"", .file "res/a.xml" .xml⟩, ⟨"fr", .string "été"⟩,
        ⟨"land", .reference 0x7f010003⟩, ⟨"night", .boolean true⟩, ⟨"v21", .integer (-1)⟩] }] }] }]⟩

theorem ofBytes?_exact_mixedTable :
    ∃ bs, mixedTable.toBytes = .ok bs ∧ bs.length = 195 ∧
      ofBytes? (bs ++ [0xff]) = .ok mixedTable ∧
      ofBytes? (bs.take 194) = .error (.decode none .layout) ∧
      toBytes ⟨[]⟩ = .ok [0, 0, 0, 0, 0, 0, 0, 0] ∧ ¬ [0, 0, 0, 0, 0, 0, 0, 0] <+: bs := by
  obtain ⟨bs, h⟩ : ∃ bs, mixedTable.toBytes = .ok bs := Step.ok_of_isOk (by decide +kernel)
  have hlength : bs.length = 195 := by
    have hany : mixedTable.toBytes.toOption.any (·.length = 195) := by decide +kernel
    simpa [h, Except.toOption] using hany
  have hshort : bs.take 194 ≠ bs := by
    intro heq
    rw [← heq, List.length_take] at hlength
    omega
  obtain ⟨hwhole, hfront, hothers⟩ := ofBytes?_exact h
  exact ⟨bs, h, hlength, hwhole _, hfront _ (List.take_prefix _ _) hshort, rfl,
    (hothers ⟨[]⟩ _ (by decide) rfl).2⟩

end Table

end AppBundle.Resource
