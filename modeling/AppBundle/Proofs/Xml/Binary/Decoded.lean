import AppBundle.Proofs.Xml.Binary.RoundTrip

/-!
# What a reader builds is canonical

A reader takes in bytes from any tool, in any order of chunks that it accepts.
Still the tree that it builds has only what a document can say: it drops a
second declaration, lets a later attribute take the place of one of the same
name, takes a resource id of zero for none, and drops raw text beside a value
that is not text.

`State.Canonical` says this of what has been built so far.  Each chunk keeps it
(`State.Canonical.step`), so a walk does (`Walk.canonical_run?`), and
the tree in the end is canonical (`canonical_of_decode`).  So it can be written
again without loss.
-/

namespace AppBundle.Xml.Binary

/-! ## Attributes -/

theorem resourceId?_ne_zero (ids : Array Word) (index : Word) :
    resourceId? ids index ≠ some 0 := by
  intro h
  have hne := (Option.filter_eq_some_iff.1 h).2
  simp at hne

/-- A bare attribute gets a value that a document can hold. -/
theorem canonical_of_setValue {pool : StringPool} {a a' : Attribute} {raw : Option String}
    {dataType : Nat} {data : Word} (hid : a.resourceId ≠ some 0) (hraw : a.raw = "")
    (hitem : a.item = none) (htype : dataType < 0x100)
    (h : setValue pool a raw dataType data = .ok a') : a'.Canonical := by
  unfold setValue at h
  -- The attribute with its raw text, if there is any.
  extract_lets b at h
  have hbid : b.resourceId ≠ some 0 := by
    cases raw with
    | some text => exact hid
    | none => exact hid
  have hb : b.Canonical := by
    cases raw with
    | some text => exact Attribute.canonical_setText hid text
    | none =>
      refine ⟨hid, fun item hsome => ?_⟩
      have hnone : a.item = some item := hsome
      rw [hitem] at hnone
      cases hnone
  have hbraw : ∀ text, raw ≠ some text → b.raw = "" ∨ text ≠ b.raw := by
    intro text hne
    cases raw with
    | some raw => exact .inr fun heq => hne (congrArg some heq.symm)
    | none => exact .inl hraw
  clear_value b
  split at h
  · cases h
    exact hb
  · cases h
    exact Attribute.canonical_setItem hbid (show _ ∧ _ from ⟨rfl, rfl⟩)
  · obtain ⟨text, -, h⟩ := Step.ok_of_bind h
    cases h
    split
    · exact hb
    · -- Raw text stays beside other compiled text.
      rename_i hne
      exact Attribute.canonical_setCompiledText hbid (hbraw text hne)
  · cases h
    exact Attribute.canonical_setItem hbid (show "" = "" from rfl)
  · cases h
    exact Attribute.canonical_setItem hbid (show "" = "" from rfl)
  · cases h
    exact Attribute.canonical_setItem hbid (show "" = "" from rfl)
  · rename_i h00 h01 h03 h10 h11 h12
    cases h
    refine Attribute.canonical_setItem hbid (show _ ∧ _ from ⟨rfl, fun hown => ?_⟩)
    have hmem := List.mem_map.2 ⟨_, hown, UInt8.toNat_ofNat_of_lt' htype⟩
    simp only [Item.ownTypes, List.map_cons, List.map_nil, List.mem_cons, List.not_mem_nil,
      or_false, UInt8.reduceToNat] at hmem
    rcases hmem with h | h | h | h | h | h
    · exact h00 h
    · exact h01 h
    · exact h03 h
    · exact h10 h
    · exact h11 h
    · exact h12 h

/-- What is read as an attribute is canonical. -/
theorem canonical_of_readAttribute {pool : StringPool} {ids : Array Word} {bs rest : Bytes}
    {a : Attribute} (h : readAttribute pool ids bs = .ok (a, rest)) : a.Canonical := by
  obtain ⟨namespaceIndex, _, -, h⟩ := Reader.ok_of_bind h
  obtain ⟨nameIndex, _, -, h⟩ := Reader.ok_of_bind h
  obtain ⟨raw, _, -, h⟩ := Reader.ok_of_bind h
  obtain ⟨size, _, -, h⟩ := Reader.ok_of_bind h
  by_cases hsize : size ≠ valueSize
  · rw [if_pos hsize] at h
    cases h
  · rw [if_neg hsize] at h
    obtain ⟨reserved, _, -, h⟩ := Reader.ok_of_bind h
    obtain ⟨dataType, _, htype, h⟩ := Reader.ok_of_bind h
    obtain ⟨data, _, -, h⟩ := Reader.ok_of_bind h
    obtain ⟨name, _, -, h⟩ := Reader.ok_of_bind h
    obtain ⟨hvalue, -⟩ := Reader.ok_of_lift h
    exact canonical_of_setValue (resourceId?_ne_zero ids nameIndex) rfl rfl
      (Reader.number_lt htype) hvalue

/-! ## Elements -/

/-- A started element has a canonical start tag, and no children yet. -/
theorem started_of_startedElement {pool : StringPool} {s : State} {c : Chunk} {e : Element}
    (h : startedElement pool s c = .ok e) : Node.Started e := by
  obtain ⟨⟨start, _⟩, -, h⟩ := Step.ok_of_bind h
  refine Step.foldlM_ok_induct ?_ ?_ h
  · intro e i e' he hstep
    obtain ⟨bs, -, hstep⟩ := Step.ok_of_bind hstep
    obtain ⟨⟨a, _⟩, ha, hstep⟩ := Step.ok_of_bind hstep
    cases hstep
    exact he.insert (canonical_of_readAttribute ha)
  · exact List.foldlRecOn _ _ (.bare _ _) fun e he d _ => he.declare d

theorem canonical_of_startedElement {pool : StringPool} {s : State} {c : Chunk} {e : Element}
    (h : startedElement pool s c = .ok e) : e.toNode.Canonical :=
  (started_of_startedElement h).canonical

/-! ## The row of chunks -/

/-- All that has been built so far is canonical. -/
structure State.Canonical (s : State) : Prop where
  /-- The open elements are, with the children that they have so far. -/
  opened : ∀ e ∈ s.opened, e.toNode.Canonical
  /-- The root is. -/
  root : ∀ e ∈ s.root, e.toNode.Canonical

namespace State.Canonical

variable {s s' : State} {c : Chunk}

theorem initial : State.Canonical {} := by
  constructor
  · intro e he
    cases he
  · intro e he
    cases he

theorem startNamespace (hs : s.Canonical) (h : s.startNamespace c = .ok s') : s'.Canonical := by
  obtain ⟨pool, -, h⟩ := Step.ok_of_bind h
  obtain ⟨⟨pfx, rest⟩, -, h⟩ := Step.ok_of_bind h
  obtain ⟨⟨uri, _⟩, -, h⟩ := Step.ok_of_bind h
  obtain ⟨text, -, h⟩ := Step.ok_of_bind h
  cases h
  exact ⟨hs.opened, hs.root⟩

theorem startElement (hs : s.Canonical) (h : s.startElement c = .ok s') : s'.Canonical := by
  obtain ⟨pool, -, h⟩ := Step.ok_of_bind h
  obtain ⟨e, he, h⟩ := Step.ok_of_bind h
  cases h
  exact ⟨List.forall_mem_cons.2 ⟨canonical_of_startedElement he, hs.opened⟩, hs.root⟩

theorem endElement (hs : s.Canonical) (h : s.endElement = .ok s') : s'.Canonical := by
  simp only [State.endElement] at h
  split at h
  · cases h
  · rename_i e parent opened hopened
    cases h
    have hall := hs.opened
    rw [hopened, List.forall_mem_cons, List.forall_mem_cons] at hall
    obtain ⟨he, hparent, hopened⟩ := hall
    exact ⟨List.forall_mem_cons.2 ⟨Node.canonical_push hparent he.tags, hopened⟩, hs.root⟩
  · rename_i e hopened
    split at h
    · cases h
      have hall := hs.opened
      rw [hopened] at hall
      constructor
      · intro e' he
        cases he
      · intro root hroot
        cases hroot
        exact hall e List.mem_cons_self
    · cases h

theorem addText (hs : s.Canonical) (h : s.addText c = .ok s') : s'.Canonical := by
  obtain ⟨pool, -, h⟩ := Step.ok_of_bind h
  obtain ⟨⟨index, _⟩, -, h⟩ := Step.ok_of_bind h
  obtain ⟨text, -, h⟩ := Step.ok_of_bind h
  split at h
  · cases h
    exact hs
  · rename_i e opened hopened
    cases h
    have hall := hs.opened
    rw [hopened, List.forall_mem_cons] at hall
    have htext : (e.pushText text).toNode.Canonical :=
      Node.canonical_push hall.1 fun _ hbelow => nomatch hbelow
    exact ⟨List.forall_mem_cons.2 ⟨htext, hall.2⟩, hs.root⟩

/-- Every chunk keeps what has been built canonical. -/
theorem step (hs : s.Canonical) (h : s.step c = .ok s') : s'.Canonical := by
  simp only [State.step] at h
  split at h
  · obtain ⟨pool, -, rfl⟩ := Step.ok_of_map h
    exact ⟨hs.opened, hs.root⟩
  split at h
  · cases h
    exact ⟨hs.opened, hs.root⟩
  split at h
  · exact hs.startNamespace h
  split at h
  · exact hs.startElement h
  split at h
  · exact hs.endElement h
  split at h
  · exact hs.addText h
  · cases h
    exact hs

end State.Canonical

/-- A walk keeps what has been built canonical. -/
theorem Walk.canonical_run? {input : Bytes} {stop : Nat} {w : Walk} {s : State}
    (hw : w.state.Canonical) (h : w.run? input stop = .ok s) : s.Canonical := by
  fun_induction Walk.run? input stop w with
  | case1 =>
    cases h
    exact hw
  | case2 => cases h
  | case3 w hstop w' hnext ih =>
    obtain ⟨c, s', -, hstep, rfl⟩ := Walk.next?_ok_iff.1 hnext
    exact ih (hw.step hstep) h

/-! ## Documents -/

/-- What a reader makes of any bytes that it accepts is canonical. -/
theorem canonical_of_decode {bs : Bytes} {n : Node} (h : decode bs = .ok n) : n.Canonical := by
  obtain ⟨c, -, h⟩ := Step.ok_of_bind h
  by_cases hkind : c.kind ≠ documentKind
  · rw [if_pos hkind] at h
    cases h
  · rw [if_neg hkind] at h
    obtain ⟨s, hwalk, h⟩ := Step.ok_of_bind h
    obtain ⟨e, hfinish, h⟩ := Step.ok_of_bind h
    cases h
    have hs := Walk.canonical_run? .initial hwalk
    simp only [State.finish] at hfinish
    split at hfinish
    · cases hfinish
    · rename_i root _ hroot
      cases hfinish
      exact hs.root e hroot
    · cases hfinish

/-- A document that was read can be written again without loss, by whatever
tool it was made. -/
theorem decode_encode_of_decode {bs bs' : Bytes} {n : Node} (hread : decode bs = .ok n)
    (hwrite : encode n = .ok bs') : decode bs' = .ok n := by
  have hn := canonical_of_decode hread
  cases n with
  | text text => cases hn.isElement
  | element tag children => exact decode_encode_element hn.tags hwrite

/-- A document with strings in UTF-8, whose only element has two attributes of
one name, the second of them a reference beside raw text. -/
def foreignDocument : Bytes :=
  [0x03, 0, 0x08, 0, 0x90, 0, 0, 0] ++
  -- The strings.
  [0x01, 0, 0x1c, 0, 0x24, 0, 0, 0, 1, 0, 0, 0, 0, 0, 0, 0, 0, 1, 0, 0, 0x20, 0, 0, 0] ++
  [0, 0, 0, 0, 0, 0, 0, 0, 1, 1, 0x61, 0] ++
  -- The start of the element and its attributes.
  [0x02, 0x01, 0x10, 0, 0x4c, 0, 0, 0, 0, 0, 0, 0, 0xff, 0xff, 0xff, 0xff] ++
  [0xff, 0xff, 0xff, 0xff, 0, 0, 0, 0, 0x14, 0, 0x14, 0, 2, 0, 0, 0, 0, 0, 0, 0] ++
  [0xff, 0xff, 0xff, 0xff, 0, 0, 0, 0, 0, 0, 0, 0, 8, 0, 0, 0x03, 0, 0, 0, 0] ++
  [0xff, 0xff, 0xff, 0xff, 0, 0, 0, 0, 0, 0, 0, 0, 8, 0, 0, 0x01, 0, 0, 0x01, 0x7f] ++
  -- The end of the element.
  [0x03, 0x01, 0x10, 0, 0x18, 0, 0, 0, 0, 0, 0, 0, 0xff, 0xff, 0xff, 0xff] ++
  [0xff, 0xff, 0xff, 0xff, 0, 0, 0, 0]

theorem decode_encode_of_decode_foreignDocument :
    ∃ n bs, decode foreignDocument = .ok n ∧ encode n = .ok bs ∧ decode bs = .ok n := by
  obtain ⟨bs, h⟩ : ∃ bs, (decode foreignDocument >>= encode) = .ok bs :=
    Step.ok_of_isOk (by decide +kernel)
  obtain ⟨n, hread, hwrite⟩ := Step.ok_of_bind h
  exact ⟨n, bs, hread, hwrite, decode_encode_of_decode hread hwrite⟩

end AppBundle.Xml.Binary
