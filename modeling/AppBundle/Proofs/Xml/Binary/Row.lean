import AppBundle.Proofs.Reading
import AppBundle.Xml.Binary.Decode
import AppBundle.Xml.Binary.Encode

/-!
# Written chunks are walked

A chunk that was written is read back with its kind and its sizes, whatever
follows it (`Chunk.read_append`), and `Chunk.Holds` says what a step finds in
it: its kind, and the content after its header.

`Leads bs s s'` says that a walk in state `s` that comes to the bytes `bs` goes
on after them in state `s'`.  Stretches compose (`Leads.append`), and a single
chunk leads to the state that its step makes (`leads_chunk`,
`leads_nodeChunk`).  Everything that is written between the string pool and the
end of a document is shown to be read back through this relation.
-/

namespace AppBundle.Xml.Binary

/-! ## Numbers -/

theorem word_append (n : Nat) (rest : Bytes) :
    word (Bytes.ofNat 4 n ++ rest) = .ok (UInt32.ofNat n, rest) := by
  have hnumber := Reader.number_append (CodecError.truncated .field) 4 n rest
  have hmod : UInt32.ofNat (n % Bytes.capacity 4) = UInt32.ofNat n := by
    apply UInt32.toNat_inj.1
    rw [UInt32.toNat_ofNat', UInt32.toNat_ofNat']
    exact Nat.mod_mod n _
  rw [← hmod]
  exact Step.bind_ok (fun p => .ok (UInt32.ofNat p.1, p.2)) hnumber

theorem half_append {n : Nat} (hn : n < 0x10000) (rest : Bytes) :
    half (Bytes.ofNat 2 n ++ rest) = .ok (n, rest) :=
  Reader.number_append_of_lt hn rest

theorem byte_append {n : Nat} (hn : n < 0x100) (rest : Bytes) :
    byte (Bytes.ofNat 1 n ++ rest) = .ok (n, rest) :=
  Reader.number_append_of_lt hn rest

/-! ## Single chunks -/

/-- A chunk is its kind, its sizes, its content and zeros. -/
theorem chunk_eq {kind header : Nat} {content bs : Bytes} (h : chunk kind header content = .ok bs) :
    bs = Bytes.ofNat 2 kind ++ (Bytes.ofNat 2 header ++ (Bytes.ofNat 4 bs.length ++
      (content ++ padding content.length))) ∧ bs.length < UInt32.size := by
  simp only [chunk] at h
  split at h
  · rename_i hsize
    cases h
    have hlen : (Bytes.ofNat 2 kind ++ Bytes.ofNat 2 header ++
        Bytes.ofNat 4 (8 + (content ++ padding content.length).length) ++
        (content ++ padding content.length)).length =
        8 + (content ++ padding content.length).length := by
      simp only [List.length_append, Bytes.length_ofNat]
    rw [hlen]
    exact ⟨by simp only [List.append_assoc], hsize⟩
  · cases h

/-- A chunk is its eight bytes and what it holds, with the zeros. -/
theorem length_of_chunk {kind header : Nat} {content bs : Bytes}
    (h : chunk kind header content = .ok bs) :
    bs.length = 8 + (content ++ padding content.length).length := by
  have hlength := congrArg List.length (chunk_eq h).1
  rw [List.length_append, List.length_append, List.length_append, Bytes.length_ofNat,
    Bytes.length_ofNat, Bytes.length_ofNat] at hlength
  omega

/-- Bytes that start with the header of a chunk, and are as long as it says, are read
as that chunk, whatever follows them. -/
theorem Chunk.read_of_eq {kind header : Nat} {content bs : Bytes} (hkind : kind < 0x10000)
    (hheader : 8 ≤ header ∧ header < 0x10000 ∧ header ≤ bs.length)
    (hbs : bs =
      Bytes.ofNat 2 kind ++ (Bytes.ofNat 2 header ++ (Bytes.ofNat 4 bs.length ++ content)))
    (hsize : bs.length < UInt32.size) (rest : Bytes) :
    Chunk.read (bs ++ rest) = .ok ⟨kind, header, bs.length, bs ++ rest⟩ := by
  have hword := UInt32.toNat_ofNat_of_lt' hsize
  have hfields : Chunk.header (bs ++ rest) =
      .ok ((kind, header, bs.length), content ++ rest) := by
    generalize hn : bs.length = n at hbs hword
    rw [hbs]
    simp only [List.append_assoc]
    rw [Chunk.header, Reader.bind_ok (half_append hkind _),
      Reader.bind_ok (half_append hheader.2.1 _), Reader.bind_ok (word_append _ _), hword]
    rfl
  exact read_ok_iff.2 ⟨content ++ rest, hfields, hheader.1, hheader.2.2, by simp, rfl⟩

/-- A written chunk is read back, whatever follows it. -/
theorem Chunk.read_append {kind header : Nat} {content bs : Bytes} (hkind : kind < 0x10000)
    (hheader : 8 ≤ header ∧ header < 0x10000 ∧ header ≤ bs.length)
    (h : chunk kind header content = .ok bs) (rest : Bytes) :
    Chunk.read (bs ++ rest) = .ok ⟨kind, header, bs.length, bs ++ rest⟩ :=
  read_of_eq hkind hheader (chunk_eq h).1 (chunk_eq h).2 rest

/-- What a step finds in a chunk: its kind, and the content after its header. -/
structure Chunk.Holds (c : Chunk) (kind : Nat) (content : Bytes) : Prop where
  /-- The chunk is of this kind. -/
  kind_eq : c.kind = kind
  /-- The header lies within the bytes. -/
  header_le : c.headerSize ≤ c.bytes.length
  /-- The content follows the header. -/
  body_eq : ∃ tail, c.body = content ++ tail

/-- Seeking a place of the content finds the content from there on. -/
theorem Chunk.Holds.seek {c : Chunk} {kind : Nat} {front content : Bytes}
    (h : c.Holds kind (front ++ content)) :
    ∃ tail, c.seek (c.headerSize + front.length) = .ok (content ++ tail) := by
  obtain ⟨tail, hbody⟩ := h.body_eq
  have hlen : c.bytes.length - c.headerSize = (front ++ content ++ tail).length := by
    rw [← hbody, Chunk.body, List.length_drop]
  have hle : c.headerSize + front.length ≤ c.bytes.length := by
    have := h.header_le
    simp only [List.length_append] at hlen
    omega
  refine ⟨tail, ?_⟩
  rw [Chunk.seek, Bytes.skip?_eq, if_pos hle, ← List.drop_drop, ← Chunk.body, hbody,
    List.append_assoc, List.drop_left]

/-- The chunk of a node holds its content. -/
theorem holds_nodeChunk {kind : Nat} {content bs : Bytes} (h : nodeChunk kind content = .ok bs)
    (rest : Bytes) :
    nodeHeaderSize ≤ bs.length ∧
      Chunk.Holds ⟨kind, nodeHeaderSize, bs.length, bs ++ rest⟩ kind content := by
  obtain ⟨hbs, -⟩ := chunk_eq h
  have hlen : 16 ≤ bs.length := by
    rw [length_of_chunk h]
    simp only [List.length_append, Bytes.length_ofNat]
    omega
  refine ⟨hlen, rfl, ?_, ?_⟩
  · simp only [nodeHeaderSize, List.length_append]
    omega
  · refine ⟨padding (Bytes.ofNat 4 0 ++ Bytes.ofNat 4 noIndexNat ++ content).length ++ rest, ?_⟩
    generalize bs.length = n at hbs
    simp only [Chunk.body, nodeHeaderSize, hbs, List.append_assoc]
    rfl

/-! ## What a chunk of each kind does -/

namespace State

variable {s : State} {c : Chunk}

theorem step_stringPool (h : c.kind = stringPoolKind) :
    s.step c = (StringPool.ofChunk c).map fun pool => { s with pool := some pool } := by
  rw [step, if_pos h]

theorem step_resourceMap (h : c.kind = resourceMapKind) :
    s.step c = .ok { s with resourceIds := (words c.payload).toArray } := by
  rw [step, h]
  rfl

theorem step_startNamespace (h : c.kind = startNamespaceKind) : s.step c = s.startNamespace c := by
  rw [step, h]
  rfl

theorem step_endNamespace (h : c.kind = endNamespaceKind) : s.step c = .ok s := by
  rw [step, h]
  rfl

theorem step_startElement (h : c.kind = startElementKind) : s.step c = s.startElement c := by
  rw [step, h]
  rfl

theorem step_endElement (h : c.kind = endElementKind) : s.step c = s.endElement := by
  rw [step, h]
  rfl

theorem step_text (h : c.kind = textKind) : s.step c = s.addText c := by
  rw [step, h]
  rfl

end State

/-! ## Walking a row -/

/-- A walk that comes to the bytes in one state goes on after them in the
other, and the bytes leave the walk at a multiple of four. -/
structure Leads (bs : Bytes) (s s' : State) : Prop where
  /-- The bytes are words. -/
  dvd_length : 4 ∣ bs.length
  /-- Where the input holds the bytes, the walk goes on behind them. -/
  walk : ∀ {input rest : Bytes} {position stop : Nat}, input.drop position = bs ++ rest →
    position + bs.length ≤ stop →
    Walk.run? input stop ⟨position, s⟩ = Walk.run? input stop ⟨position + bs.length, s'⟩

theorem Leads.nil (s : State) : Leads [] s s :=
  ⟨Nat.dvd_zero 4, fun _ _ => rfl⟩

/-- Stretches compose. -/
theorem Leads.append {bs cs : Bytes} {s s' s'' : State} (h : Leads bs s s')
    (h' : Leads cs s' s'') : Leads (bs ++ cs) s s'' := by
  constructor
  · rw [List.length_append]
    exact Nat.dvd_add h.dvd_length h'.dvd_length
  · intro input rest position stop hinput hstop
    rw [List.length_append] at hstop ⊢
    rw [List.append_assoc] at hinput
    have hbehind : input.drop (position + bs.length) = cs ++ rest := by
      rw [← List.drop_drop, hinput, List.drop_left]
    rw [h.walk hinput (by omega), h'.walk hbehind (by omega), Nat.add_assoc]

/-- Content and its zeros together are words. -/
theorem dvd_length_padded (content : Bytes) : 4 ∣ (content ++ padding content.length).length := by
  simp only [padding, List.length_append, List.length_replicate]
  omega

/-- Words need no zeros. -/
theorem padding_of_dvd {length : Nat} (h : 4 ∣ length) : padding length = [] := by
  obtain ⟨count, rfl⟩ := h
  simp [padding]

theorem dvd_length_chunk {kind header : Nat} {content bs : Bytes}
    (h : chunk kind header content = .ok bs) : 4 ∣ bs.length := by
  rw [length_of_chunk h]
  have hpadded := dvd_length_padded content
  omega

/-- A chunk leads to the state that its step makes. -/
theorem leads_chunk {kind header : Nat} {content bs : Bytes} {s s' : State}
    (hkind : kind < 0x10000) (hheader : 8 ≤ header ∧ header < 0x10000 ∧ header ≤ bs.length)
    (h : chunk kind header content = .ok bs)
    (hstep : ∀ rest, s.step ⟨kind, header, bs.length, bs ++ rest⟩ = .ok s') :
    Leads bs s s' := by
  refine ⟨dvd_length_chunk h, fun {input rest position stop} hinput hstop => ?_⟩
  have hread := Chunk.read_append hkind hheader h rest
  rw [← hinput] at hread
  have hnext : Walk.next? input ⟨position, s⟩ = .ok ⟨position + bs.length, s'⟩ :=
    Walk.next?_ok_iff.2 ⟨_, s', hread, hinput ▸ hstep rest, rfl⟩
  rw [Walk.run?_of_lt (show position < stop by omega), Step.bind_ok _ hnext]

/-- The chunk of a node leads to the state that its step makes. -/
theorem leads_nodeChunk {kind : Nat} {content bs : Bytes} {s s' : State} (hkind : kind < 0x10000)
    (h : nodeChunk kind content = .ok bs)
    (hstep : ∀ c : Chunk, c.Holds kind content → s.step c = .ok s') : Leads bs s s' := by
  obtain ⟨hlen, -⟩ := holds_nodeChunk h []
  refine leads_chunk hkind ⟨by decide, by decide, hlen⟩ h fun rest => ?_
  exact hstep _ (holds_nodeChunk h rest).2

end AppBundle.Xml.Binary
