import AppBundle.Proofs.Wire.Format

/-!
# Bytes that say where they end

A format is stable when what it has read it reads again with more bytes behind,
and leaves these (`Format.Stable`).  Each combinator of stable formats is stable.

A format that is lawful and stable marks the end of its values.  A value that was
written is read back from the bytes whatever follows, and from nothing less: a
proper prefix is refused (`Lawful.error_of_prefix`), for if it were read, the
bytes that are missing would be left over from the whole.  So the bytes of a value
never begin with those of another (`Lawful.eq_of_prefix`).
-/

namespace AppBundle.Wire.Format

variable {α β : Type} {F : Format α} {G : Format β}

/-- Bytes put behind the input stay behind what is left, and the same is read. -/
def Stable (F : Format α) : Prop :=
  ∀ bs a rest, F.read bs = some (a, rest) → ∀ tail, F.read (bs ++ tail) = some (a, rest ++ tail)

/-! ## Parts and wholes -/

theorem Stable.via (hF : F.Stable) (toRaw : β → α) (ofRaw? : α → Option β) :
    (F.via toRaw ofRaw?).Stable := by
  intro bs b rest h tail
  obtain ⟨⟨raw, middle⟩, hraw, h⟩ := Option.bind_eq_some_iff.1 h
  obtain ⟨b', hb, h⟩ := Option.bind_eq_some_iff.1 h
  cases h
  simp [Format.via, hF bs raw rest hraw tail, hb]

theorem Stable.pair (hF : F.Stable) (hG : G.Stable) : (F.pair G).Stable := by
  intro bs p rest h tail
  obtain ⟨⟨a, middle⟩, ha, h⟩ := Option.bind_eq_some_iff.1 h
  obtain ⟨⟨b, last⟩, hb, h⟩ := Option.bind_eq_some_iff.1 h
  cases h
  simp [Format.pair, hF bs a middle ha tail, hG middle b rest hb tail]

theorem Stable.case (hG : G.Stable) (make : β → α) (content? : α → Option β) :
    (G.case make content?).Stable := by
  intro bs a rest h tail
  obtain ⟨⟨b, middle⟩, hb, h⟩ := Option.map_eq_some_iff.1 h
  cases h
  simp [Format.case, hG bs b rest hb tail]

/-- A choice is stable when the formats of all kinds are. -/
theorem Stable.choice {kind : Format Nat} (hkind : kind.Stable) (index : α → Nat)
    {cases : List (Format α)} (hcases : ∀ F ∈ cases, F.Stable) :
    (choice kind index cases).Stable := by
  intro bs a rest h tail
  obtain ⟨⟨i, middle⟩, hi, h⟩ := Option.bind_eq_some_iff.1 h
  obtain ⟨F, hF, h⟩ := Option.bind_eq_some_iff.1 h
  simp [Format.choice, hkind bs i middle hi tail, hF,
    hcases F (List.mem_of_getElem? hF) middle a rest h tail]

/-! ## Numbers -/

/-- A stretch is taken from the front, so bytes behind the input stay in the rest. -/
theorem split?_stable {n : Nat} {bs front rest : Bytes}
    (h : Bytes.split? n bs = some (front, rest)) (tail : Bytes) :
    Bytes.split? n (bs ++ tail) = some (front, rest ++ tail) := by
  rw [Bytes.split?_eq] at h
  split at h
  · rename_i hle
    cases h
    have hlonger : n ≤ (bs ++ tail).length := by
      rw [List.length_append]
      omega
    rw [Bytes.split?_eq, if_pos hlonger, List.take_append_of_le_length hle,
      List.drop_append_of_le_length hle]
  · cases h

theorem stable_number (width : Nat) : (number width).Stable := by
  intro bs n rest h tail
  obtain ⟨⟨front, middle⟩, hfront, h⟩ := Option.map_eq_some_iff.1 h
  cases h
  simp [number, split?_stable hfront tail]

theorem stable_word : word.Stable := (stable_number 4).via _ _

theorem stable_signed : signed.Stable := stable_word.via _ _

theorem stable_boolean : boolean.Stable := (stable_number 1).via _ _

/-! ## Lengths in front -/

theorem stable_bytes : bytes.Stable := by
  intro bs a rest h tail
  obtain ⟨⟨length, middle⟩, hlength, h⟩ := Option.bind_eq_some_iff.1 h
  simp [bytes, stable_number 8 bs length middle hlength tail, split?_stable h tail]

theorem stable_text : text.Stable := stable_bytes.via _ _

theorem readAll_stable (hF : F.Stable) {count : Nat} {bs rest : Bytes} {as : List α}
    (h : F.readAll count bs = some (as, rest)) (tail : Bytes) :
    F.readAll count (bs ++ tail) = some (as, rest ++ tail) := by
  induction count generalizing bs as with
  | zero =>
    cases h
    rfl
  | succ count ih =>
    obtain ⟨⟨a, middle⟩, ha, h⟩ := Option.bind_eq_some_iff.1 h
    obtain ⟨⟨as', last⟩, has, h⟩ := Option.bind_eq_some_iff.1 h
    cases h
    simp [readAll, hF bs a middle ha tail, ih has]

theorem Stable.list (hF : F.Stable) : F.list.Stable := by
  intro bs as rest h tail
  obtain ⟨⟨count, middle⟩, hcount, h⟩ := Option.bind_eq_some_iff.1 h
  simp [Format.list, stable_number 8 bs count middle hcount tail, readAll_stable hF h tail]

/-! ## Whole values -/

variable {a b : α} {bs bs' : Bytes}

/-- Bytes that miss their end are refused. -/
theorem Lawful.error_of_prefix (hF : F.Lawful) (hstable : F.Stable) (h : F.toBytes a = .ok bs)
    {front : Bytes} (hfront : front <+: bs) (hne : front ≠ bs) :
    F.ofBytes? front = .error (.decode none .layout) := by
  obtain ⟨tail, rfl⟩ := hfront
  cases hread : F.read front with
  | none => rw [ofBytes?, hread]
  | some p =>
    exfalso
    obtain ⟨a', rest⟩ := p
    have hwhole := hF a _ [] (write_of_toBytes h)
    rw [List.append_nil, hstable front a' rest hread tail] at hwhole
    -- Nothing is left of the whole, so nothing was missing.
    have hleft : rest ++ tail = [] := congrArg Prod.snd (Option.some.inj hwhole)
    exact hne (by rw [(List.append_eq_nil_iff.1 hleft).2, List.append_nil])

/-- The bytes of a value do not begin with those of another. -/
theorem Lawful.eq_of_prefix (hF : F.Lawful) (h : F.toBytes a = .ok bs) (h' : F.toBytes b = .ok bs')
    (hbegins : bs <+: bs') : a = b := by
  obtain ⟨tail, rfl⟩ := hbegins
  have hread := hF.ofBytes?_append h tail
  rw [hF.ofBytes?_of_toBytes h'] at hread
  exact (Except.ok.inj hread).symm

end AppBundle.Wire.Format
