import AppBundle.Proofs.Reading
import AppBundle.Xml.Binary.Decode

/-!
# Where a reader stays

A document is a chunk, and in it one chunk follows another.  `place? bs i` is
where the chunk numbered `i` starts, beside the position where the document ends.

Whatever a reader takes in lies within the input.  A chunk whose size leads
beyond the last byte is refused, and so is the start of an element with an
attribute that does (`error_of_overrun`).

Within the input a reader is not held back.  A chunk that ends behind the
document chunk is the last one, and is read as if the document ended with it
(`run?_of_last`).  The attributes of an element are counted from the end of
the header of its chunk, and the size of the chunk makes no difference to them
(`State.startElement_size`): they may be taken from the chunks that follow.
-/

namespace AppBundle.Xml.Binary

/-! ## Places -/

/-- The place of a chunk in a document, unless the document ends there. -/
def placeOf? (position stop : Nat) : Option (Nat × Nat) :=
  if position < stop then some (position, stop) else none

/-- Where the chunk numbered `i` of a document starts, and where the document ends. -/
def place? (bs : Bytes) : Nat → Option (Nat × Nat)
  | 0 => do
    let c ← (Chunk.read bs).toOption
    if c.kind = documentKind then placeOf? c.headerSize c.size else none
  | i + 1 => do
    let (position, stop) ← place? bs i
    let c ← (Chunk.read (bs.drop position)).toOption
    placeOf? (position + c.size) stop

theorem placeOf?_eq_some_iff {position stop position' stop' : Nat} :
    placeOf? position stop = some (position', stop') ↔
      position' < stop' ∧ position = position' ∧ stop = stop' := by
  rw [placeOf?]
  split
  · rename_i hstop
    simp only [Option.some.injEq, Prod.mk.injEq]
    constructor
    · rintro ⟨rfl, rfl⟩
      exact ⟨hstop, rfl, rfl⟩
    · exact And.right
  · rename_i hstop
    simp only [reduceCtorEq, false_iff]
    rintro ⟨hlt, rfl, rfl⟩
    exact hstop hlt

section Place

variable {bs : Bytes} {position stop i : Nat} {s : State} {c : Chunk}

/-- The first chunk stands behind the header of the document. -/
theorem place?_zero (h : place? bs 0 = some (position, stop)) :
    ∃ c, Chunk.read bs = .ok c ∧ c.kind = documentKind ∧ position < stop ∧
      position = c.headerSize ∧ stop = c.size := by
  obtain ⟨c, hread, hplace⟩ := Option.bind_eq_some_iff.1 h
  by_cases hkind : c.kind = documentKind
  · rw [if_pos hkind] at hplace
    obtain ⟨hlt, hposition, hstop⟩ := placeOf?_eq_some_iff.1 hplace
    exact ⟨c, Step.ok_of_toOption hread, hkind, hlt, hposition.symm, hstop.symm⟩
  · rw [if_neg hkind] at hplace
    cases hplace

/-- Every other one stands behind the one before it. -/
theorem place?_succ (h : place? bs (i + 1) = some (position, stop)) :
    ∃ position₀ c, place? bs i = some (position₀, stop) ∧
      Chunk.read (bs.drop position₀) = .ok c ∧ position < stop ∧ position = position₀ + c.size := by
  obtain ⟨⟨position₀, stop₀⟩, hbefore, h⟩ := Option.bind_eq_some_iff.1 h
  obtain ⟨c, hread, hplace⟩ := Option.bind_eq_some_iff.1 h
  obtain ⟨hlt, rfl, rfl⟩ := placeOf?_eq_some_iff.1 hplace
  exact ⟨position₀, c, hbefore, Step.ok_of_toOption hread, hlt, rfl⟩

/-- A place lies before the end of the document. -/
theorem lt_of_place? (h : place? bs i = some (position, stop)) : position < stop := by
  cases i with
  | zero =>
    obtain ⟨c, -, -, hlt, -⟩ := place?_zero h
    exact hlt
  | succ i =>
    obtain ⟨position₀, c, -, -, hlt, -⟩ := place?_succ h
    exact hlt

/-! ## Walks -/

/-- A walk that succeeds reads the chunk that it comes to, takes a step with it and
goes on behind it. -/
theorem ok_of_run? {s' : State} (hlt : position < stop)
    (h : Walk.run? bs stop ⟨position, s⟩ = .ok s') :
    ∃ c s₁, Chunk.read (bs.drop position) = .ok c ∧ s.step c = .ok s₁ ∧
      Walk.run? bs stop ⟨position + c.size, s₁⟩ = .ok s' := by
  rw [Walk.run?_of_lt hlt] at h
  obtain ⟨w', hnext, h⟩ := Step.ok_of_bind h
  obtain ⟨c, s₁, hread, hstep, rfl⟩ := Walk.next?_ok_iff.1 hnext
  exact ⟨c, s₁, hread, hstep, h⟩

/-- A reader that succeeds has walked on from every place of the document. -/
theorem ok_of_place? {n : Node} (hok : decode bs = .ok n)
    (h : place? bs i = some (position, stop)) :
    ∃ s s', Walk.run? bs stop ⟨position, s⟩ = .ok s' := by
  induction i generalizing position with
  | zero =>
    obtain ⟨c, hread, hkind, -, rfl, rfl⟩ := place?_zero h
    obtain ⟨c', hread', hok⟩ := Step.ok_of_bind hok
    cases hread.symm.trans hread'
    rw [if_neg fun hne => hne hkind] at hok
    obtain ⟨s', hwalk, -⟩ := Step.ok_of_bind hok
    exact ⟨{}, s', hwalk⟩
  | succ i ih =>
    obtain ⟨position₀, c, hbefore, hread, -, rfl⟩ := place?_succ h
    obtain ⟨s, s', hwalk⟩ := ih hbefore
    obtain ⟨c', s₁, hread', -, hwalk⟩ := ok_of_run? (lt_of_place? hbefore) hwalk
    cases hread.symm.trans hread'
    exact ⟨s₁, s', hwalk⟩

/-- What a reader that succeeds finds at every place: a chunk that it takes a step with. -/
theorem exists_chunk_of_place? {n : Node} (hok : decode bs = .ok n)
    (h : place? bs i = some (position, stop)) :
    ∃ c s s', Chunk.read (bs.drop position) = .ok c ∧ State.step s c = .ok s' := by
  obtain ⟨s, s', hwalk⟩ := ok_of_place? hok h
  obtain ⟨c, s₁, hread, hstep, -⟩ := ok_of_run? (lt_of_place? h) hwalk
  exact ⟨c, s, s₁, hread, hstep⟩

/-- A chunk that ends with the document, or behind it, is the last one. -/
theorem run?_of_last (hread : Chunk.read (bs.drop position) = .ok c) (hlt : position < stop)
    (hlast : stop ≤ position + c.size) (s : State) :
    Walk.run? bs stop ⟨position, s⟩ = s.step c := by
  rw [Walk.run?_of_lt hlt, Walk.next?, Step.bind_ok _ hread]
  cases s.step c with
  | error e => rfl
  | ok s₁ => exact Walk.run?_of_le hlast

end Place

/-! ## Chunks -/

/-- A chunk has the fields of its header, starts with its bytes and ends within them. -/
theorem Chunk.fields_of_read {bs : Bytes} {c : Chunk} (h : Chunk.read bs = .ok c) :
    ∃ tail, Chunk.header bs = .ok ((c.kind, c.headerSize, c.size), tail) ∧ c.bytes = bs ∧
      c.size ≤ bs.length := by
  obtain ⟨tail, hheader, -, -, hlength, hbytes⟩ := Chunk.read_ok_iff.1 h
  exact ⟨tail, hheader, hbytes, hlength⟩

/-- Where the attributes of an element stand: their place behind the header, the
distance from one to the next, and their number. -/
def attributeFields : Read (Nat × Nat × Nat) := do
  let _namespaceIndex ← word
  let _nameIndex ← word
  let start ← half
  let stride ← half
  let count ← half
  return (start, stride, count)

theorem attributeFields_of_readElementStart {pool : StringPool} {bs tail : Bytes}
    {start : ElementStart} (h : readElementStart pool bs = .ok (start, tail)) :
    attributeFields bs = .ok ((start.attributeStart, start.stride, start.count), tail) := by
  obtain ⟨namespaceIndex, _, hnamespace, h⟩ := Reader.ok_of_bind h
  obtain ⟨nameIndex, _, hname, h⟩ := Reader.ok_of_bind h
  obtain ⟨name, behindName, hrequire, h⟩ := Reader.ok_of_bind h
  obtain ⟨attributeStart, _, hstart, h⟩ := Reader.ok_of_bind h
  obtain ⟨stride, _, hstride, h⟩ := Reader.ok_of_bind h
  obtain ⟨count, _, hcount, h⟩ := Reader.ok_of_bind h
  -- The name is looked up without reading on.
  have hsame : behindName = _ := (Reader.ok_of_lift hrequire).2
  rw [attributeFields, Reader.bind_ok hnamespace, Reader.bind_ok hname, ← hsame,
    Reader.bind_ok hstart, Reader.bind_ok hstride, Reader.bind_ok hcount]
  by_cases hshort : stride < attributeSize
  · rw [if_pos hshort] at h
    cases h
  · rw [if_neg hshort] at h
    cases h
    rfl

theorem length_of_word {bs rest : Bytes} {w : Word} (h : word bs = .ok (w, rest)) :
    bs.length = 4 + rest.length := by
  obtain ⟨⟨n, rest'⟩, hnumber, heq⟩ := Step.ok_of_bind h
  cases heq
  exact Reader.length_of_number hnumber

/-- An attribute takes its bytes from the front. -/
theorem length_of_readAttribute {pool : StringPool} {ids : Array Word} {bs rest : Bytes}
    {a : Attribute} (h : readAttribute pool ids bs = .ok (a, rest)) :
    bs.length = attributeSize + rest.length := by
  obtain ⟨namespaceIndex, _, hnamespace, h⟩ := Reader.ok_of_bind h
  obtain ⟨nameIndex, _, hname, h⟩ := Reader.ok_of_bind h
  obtain ⟨raw, _, hraw, h⟩ := Reader.ok_of_bind h
  obtain ⟨size, _, hsize, h⟩ := Reader.ok_of_bind h
  by_cases hvalue : size ≠ valueSize
  · rw [if_pos hvalue] at h
    cases h
  · rw [if_neg hvalue] at h
    obtain ⟨reserved, _, hreserved, h⟩ := Reader.ok_of_bind h
    obtain ⟨dataType, _, hdataType, h⟩ := Reader.ok_of_bind h
    obtain ⟨data, _, hdata, h⟩ := Reader.ok_of_bind h
    obtain ⟨name, _, hrequire, h⟩ := Reader.ok_of_bind h
    obtain ⟨-, hsame⟩ := Reader.ok_of_lift hrequire
    obtain ⟨-, hrest⟩ := Reader.ok_of_lift h
    have hnamespace := length_of_word hnamespace
    have hname := length_of_word hname
    have hraw := length_of_word hraw
    have hsize := Reader.length_of_number hsize
    have hreserved := Reader.length_of_number hreserved
    have hdataType := Reader.length_of_number hdataType
    have hdata := length_of_word hdata
    simp only at hsame hrest
    rw [hrest, hsame, attributeSize]
    omega

/-- The attributes of an element that was started lie within the input. -/
theorem le_length_of_startedElement {pool : StringPool} {s : State} {c : Chunk} {e : Element}
    (h : startedElement pool s c = .ok e) {start stride count : Nat} {tail : Bytes}
    (hfields : attributeFields c.body = .ok ((start, stride, count), tail)) {i : Nat}
    (hi : i < count) : c.headerSize + start + i * stride + attributeSize ≤ c.bytes.length := by
  obtain ⟨⟨read, tail'⟩, hread, h⟩ := Step.ok_of_bind h
  cases hfields.symm.trans (attributeFields_of_readElementStart hread)
  obtain ⟨_, _, hattribute⟩ := Step.ok_of_mem_foldlM h (List.mem_range.2 hi)
  obtain ⟨bs, hseek, hattribute⟩ := Step.ok_of_bind hattribute
  obtain ⟨⟨a, rest⟩, ha, -⟩ := Step.ok_of_bind hattribute
  have hlength := length_of_readAttribute ha
  simp only [Chunk.seek] at hseek
  split at hseek
  · rename_i hskip
    cases hseek
    have hskipped := Bytes.length_of_skip? hskip
    omega
  · cases hseek

/-- The size of a chunk makes no difference to the element that it starts. -/
theorem State.startElement_size (s : State) (c : Chunk) (size : Nat) :
    s.startElement { c with size } = s.startElement c := rfl

/-! ## Documents -/

theorem exists_error_of_not_ok {bs : Bytes} (h : ∀ n, decode bs ≠ .ok n) :
    ∃ e, decode bs = .error e := by
  cases hdecode : decode bs with
  | error e => exact ⟨e, rfl⟩
  | ok n => exact absurd hdecode (h n)

section Overrun

variable {bs tail : Bytes} {i position stop kind headerSize size : Nat}
  (hplace : place? bs i = some (position, stop))
  (hheader : Chunk.header (bs.drop position) = .ok ((kind, headerSize, size), tail))

include hheader in
theorem fields_of_header {c : Chunk} (hread : Chunk.read (bs.drop position) = .ok c) :
    c.kind = kind ∧ c.headerSize = headerSize ∧ c.size = size ∧ c.bytes = bs.drop position ∧
      size ≤ bs.length - position := by
  obtain ⟨tail', hfields, hbytes, hle⟩ := Chunk.fields_of_read hread
  cases hheader.symm.trans hfields
  exact ⟨rfl, rfl, rfl, hbytes, List.length_drop ▸ hle⟩

include hplace hheader

/-- A chunk whose size leads beyond the input is refused. -/
theorem error_of_chunk (hover : bs.length < position + size) : ∃ e, decode bs = .error e := by
  refine exists_error_of_not_ok fun n hok => ?_
  obtain ⟨c, -, -, hread, -⟩ := exists_chunk_of_place? hok hplace
  have hsize := (Chunk.size_of_read hread).1
  obtain ⟨-, -, rfl, -, hle⟩ := fields_of_header hheader hread
  omega

/-- So is the start of an element whose last attribute ends there. -/
theorem error_of_attributes (hkind : kind = startElementKind) {start stride count : Nat}
    {tail' : Bytes}
    (hfields : attributeFields (bs.drop (position + headerSize)) =
      .ok ((start, stride, count), tail'))
    (hcount : 0 < count)
    (hover : bs.length <
      position + headerSize + start + (count - 1) * stride + attributeSize) :
    ∃ e, decode bs = .error e := by
  refine exists_error_of_not_ok fun n hok => ?_
  obtain ⟨c, s, s', hread, hstep⟩ := exists_chunk_of_place? hok hplace
  obtain ⟨rfl, rfl, rfl, hbytes, -⟩ := fields_of_header hheader hread
  rw [State.step, hkind] at hstep
  obtain ⟨pool, -, hstep⟩ := Step.ok_of_bind (x := s.loaded .element) hstep
  obtain ⟨e, he, -⟩ := Step.ok_of_bind hstep
  rw [← List.drop_drop, ← hbytes] at hfields
  have hle := le_length_of_startedElement he hfields (Nat.sub_one_lt_of_lt hcount)
  rw [hbytes, List.length_drop, attributeSize] at hle
  rw [attributeSize] at hover
  omega

end Overrun

/-- A document is refused when one of its chunks has a size that leads beyond the
input, or starts an element with an attribute there.  A chunk that ends behind the
document and within the input is read as the last one, and attributes are read
wherever its end is. -/
theorem error_of_overrun {bs tail : Bytes} {i position stop kind headerSize size : Nat}
    (hplace : place? bs i = some (position, stop))
    (hheader : Chunk.header (bs.drop position) = .ok ((kind, headerSize, size), tail)) :
    (bs.length < position + size → ∃ e, decode bs = .error e) ∧
      (kind = startElementKind → ∀ start stride count tail',
        attributeFields (bs.drop (position + headerSize)) = .ok ((start, stride, count), tail') →
        0 < count →
        bs.length < position + headerSize + start + (count - 1) * stride + attributeSize →
          ∃ e, decode bs = .error e) ∧
      ∀ c, Chunk.read (bs.drop position) = .ok c → ∀ s : State,
        (stop ≤ position + size → Walk.run? bs stop ⟨position, s⟩ = s.step c) ∧
          (kind = startElementKind → ∀ end', s.step { c with size := end' } = s.step c) := by
  refine ⟨error_of_chunk hplace hheader, fun hkind start stride count tail' =>
    error_of_attributes hplace hheader hkind, fun c hread s => ?_⟩
  obtain ⟨rfl, -, rfl, -⟩ := fields_of_header hheader hread
  refine ⟨fun hlast => run?_of_last hread (lt_of_place? hplace) hlast s, fun hkind end' => ?_⟩
  rw [State.step, State.step, hkind]
  exact s.startElement_size c end'

/-- An element in a document that gives its own size as `size`.  The start of the
element counts `count` attributes from `start` on; `between` comes behind it. -/
def sizedDocument (size start count : UInt8) (between : Bytes) : Bytes :=
  [0x03, 0, 0x08, 0, size, 0, 0, 0] ++
  -- The strings.
  [0x01, 0, 0x1c, 0, 0x24, 0, 0, 0, 1, 0, 0, 0, 0, 0, 0, 0, 0, 1, 0, 0, 0x20, 0, 0, 0] ++
  [0, 0, 0, 0, 0, 0, 0, 0, 1, 1, 0x61, 0] ++
  -- The start of the element.
  [0x02, 0x01, 0x10, 0, 0x24, 0, 0, 0, 0, 0, 0, 0, 0xff, 0xff, 0xff, 0xff] ++
  [0xff, 0xff, 0xff, 0xff, 0, 0, 0, 0, start, 0, 0x14, 0, count, 0, 0, 0, 0, 0, 0, 0] ++
  between ++
  -- The end of the element.
  [0x03, 0x01, 0x10, 0, 0x18, 0, 0, 0, 0, 0, 0, 0, 0xff, 0xff, 0xff, 0xff] ++
  [0xff, 0xff, 0xff, 0xff, 0, 0, 0, 0]

/-- A chunk of a kind that a reader passes over, with an attribute in it. -/
def strayAttribute : Bytes :=
  [0x00, 0x02, 0x08, 0, 0x1c, 0, 0, 0] ++
  [0xff, 0xff, 0xff, 0xff, 0, 0, 0, 0, 0xff, 0xff, 0xff, 0xff, 8, 0, 0, 0x12, 1, 0, 0, 0]

theorem error_of_overrun_cutDocument :
    ∃ bs position stop headerSize size tail, place? bs 2 = some (position, stop) ∧
      Chunk.header (bs.drop position) = .ok ((endElementKind, headerSize, size), tail) ∧
        bs.length < position + size ∧ ∃ e, decode bs = .error e :=
  let bs := (sizedDocument 0x64 0x14 0 []).take 0x64
  have hplace : place? bs 2 = some (0x50, 0x64) := rfl
  have hheader : Chunk.header (bs.drop 0x50) = .ok ((endElementKind, 16, 24), bs.drop 0x58) := rfl
  have hover : bs.length < 0x50 + 24 := by decide
  ⟨bs, _, _, _, _, _, hplace, hheader, hover, (error_of_overrun hplace hheader).1 hover⟩

/-- Yet the end of an element may stand behind the end of the document, and the
attribute of an element in the chunk behind its start. -/
theorem decode_sizedDocument :
    (∃ position stop kind headerSize size tail,
      place? (sizedDocument 0x64 0x14 0 []) 2 = some (position, stop) ∧
        Chunk.header ((sizedDocument 0x64 0x14 0 []).drop position) =
          .ok ((kind, headerSize, size), tail) ∧
        stop < position + size ∧ (decode (sizedDocument 0x64 0x14 0 [])).isOk) ∧
      ∃ position stop headerSize size tail start stride count tail',
        place? (sizedDocument 0x84 0x1c 1 strayAttribute) 1 = some (position, stop) ∧
          Chunk.header ((sizedDocument 0x84 0x1c 1 strayAttribute).drop position) =
            .ok ((startElementKind, headerSize, size), tail) ∧
          attributeFields
              ((sizedDocument 0x84 0x1c 1 strayAttribute).drop (position + headerSize)) =
            .ok ((start, stride, count), tail') ∧
          0 < count ∧ size < headerSize + start + count * stride ∧
            (((decode (sizedDocument 0x84 0x1c 1 strayAttribute)).toOption.bind
              Node.element?).bind (·.attribute? "" "a")) =
                some { name := "a", item := some (.boolean true) } := by
  refine ⟨⟨_, _, _, _, _, _, rfl, rfl, ?_, ?_⟩, _, _, _, _, _, _, _, _, _, rfl, rfl, rfl,
    ?_, ?_, ?_⟩
  · decide
  · decide +kernel
  · decide
  · decide
  · decide +kernel

end AppBundle.Xml.Binary
