import AppBundle.Proofs.Xml.Binary.Bounds
import Mathlib.Tactic.SplitIfs

/-!
# What follows a document

The bytes behind a document do not change what is read from it.  A reader seeks
positions that it finds in the bytes and is held back by the end of the input
alone, so more input could let it read on where it stopped before.  But where it
succeeded it did not stop.

`Chunk.extend` is a chunk with more input behind it.  A chunk that was read keeps
its fields (`Chunk.read_extend`), and what it does stays the same
(`State.step_extend`), since each of the readers is stable and no position
leads out of the input.  So a walk goes on as it did (`Walk.run?_append`), and
the tree is the same (`decode_append`).
-/

namespace AppBundle.Xml.Binary

/-! ## Readers -/

theorem stable_half : half.Stable := .number _ _

theorem stable_byte : byte.Stable := .number _ _

theorem stable_word : word.Stable := (Reader.Stable.number _ 4).bind fun n => .pure (UInt32.ofNat n)

theorem stable_header : Chunk.header.Stable :=
  stable_half.bind fun _ => stable_half.bind fun _ => stable_word.bind fun _ => .pure _

theorem stable_fields : StringPool.fields.Stable :=
  stable_word.bind fun _ => stable_word.bind fun _ => stable_word.bind fun _ =>
    stable_word.bind fun _ => .pure _

theorem stable_readElementStart (pool : StringPool) : (readElementStart pool).Stable := by
  refine stable_word.bind fun _ => stable_word.bind fun _ => .bind (.lift _) fun _ =>
    stable_half.bind fun _ => stable_half.bind fun stride => stable_half.bind fun _ => ?_
  split
  · exact .bind (.throw _) fun _ => .pure _
  · exact .pure _

theorem stable_readAttribute (pool : StringPool) (ids : Array Word) :
    (readAttribute pool ids).Stable := by
  refine stable_word.bind fun _ => stable_word.bind fun _ => stable_word.bind fun _ =>
    stable_half.bind fun size => ?_
  split
  · exact .throw _
  · exact stable_byte.bind fun _ => stable_byte.bind fun _ => stable_word.bind fun _ =>
      .bind (.lift _) fun _ => .lift _

/-- The strings are taken from data that stays as it is. -/
theorem stable_readStrings (entry : Bytes → Except CodecError String) (data : Bytes)
    (count : Nat) : (StringPool.readStrings entry data count).Stable := by
  induction count with
  | zero => exact .pure []
  | succ count ih =>
    rw [StringPool.readStrings]
    refine stable_word.bind fun offset => ?_
    split
    · exact .throw _
    · exact .bind (.lift _) fun _ => ih.bind fun _ => .pure _

/-! ## Chunks -/

namespace Chunk

/-- A chunk whose header lies within it, and which lies within the input. -/
structure Fits (c : Chunk) : Prop where
  /-- The header has at least its own eight bytes. -/
  le_header : 8 ≤ c.headerSize
  /-- The header lies within the chunk. -/
  header_le : c.headerSize ≤ c.size
  /-- The chunk lies within the input. -/
  size_le : c.size ≤ c.bytes.length

/-- The chunk with more input behind it. -/
def extend (c : Chunk) (tail : Bytes) : Chunk :=
  { c with bytes := c.bytes ++ tail }

/-- A chunk that was read fits, and is read in the same way from more input. -/
theorem read_extend {bs : Bytes} {c : Chunk} (h : read bs = .ok c) :
    c.Fits ∧ ∀ tail, read (bs ++ tail) = .ok (c.extend tail) := by
  obtain ⟨behind, hheader, hle, hsize, hlength, rfl⟩ := read_ok_iff.1 h
  refine ⟨⟨hle, hsize, hlength⟩, fun tail => read_ok_iff.2 ⟨behind ++ tail,
    stable_header _ _ _ hheader tail, hle, hsize, ?_, rfl⟩⟩
  simp only [extend, List.length_append]
  omega

end Chunk

section Extend

variable {c : Chunk} (hc : c.Fits) (tail : Bytes)

include hc

theorem drop_extend {position : Nat} (h : position ≤ c.size) :
    (c.extend tail).bytes.drop position = c.bytes.drop position ++ tail :=
  List.drop_append_of_le_length (Nat.le_trans h hc.size_le)

theorem body_extend : (c.extend tail).body = c.body ++ tail := drop_extend hc tail hc.header_le

/-- What was read from the body is read from it with more input behind it. -/
theorem read_body_extend {α : Type} {m : Reader CodecError α} (hm : m.Stable) {a : α} {rest : Bytes}
    (h : m c.body = .ok (a, rest)) : m (c.extend tail).body = .ok (a, rest ++ tail) := by
  rw [body_extend hc tail]
  exact hm _ _ _ h tail

/-- The bytes of the chunk itself are the same ones. -/
theorem take_extend : (c.extend tail).bytes.take c.size = c.bytes.take c.size :=
  List.take_append_of_le_length hc.size_le

theorem payload_extend : (c.extend tail).payload = c.payload :=
  congrArg (List.drop c.headerSize) (take_extend hc tail)

omit hc in
/-- A position that was found is found with more input behind it. -/
theorem seek_extend {position : Nat} {bs : Bytes} (h : c.seek position = .ok bs) :
    (c.extend tail).seek position = .ok (bs ++ tail) := by
  simp only [Chunk.seek, Bytes.skip?_eq] at h
  by_cases hle : position ≤ c.bytes.length
  · rw [if_pos hle] at h
    cases h
    have hlonger : position ≤ (c.bytes ++ tail).length := by
      rw [List.length_append]
      omega
    simp only [Chunk.seek, Chunk.extend, Bytes.skip?_eq, if_pos hlonger,
      List.drop_append_of_le_length hle]
  · rw [if_neg hle] at h
    cases h

theorem ofChunk_extend {pool : StringPool} (h : StringPool.ofChunk c = .ok pool) :
    StringPool.ofChunk (c.extend tail) = .ok pool := by
  obtain ⟨⟨⟨count, utf8, start⟩, behind⟩, hfields, h⟩ := Step.ok_of_bind h
  have hheader := hc.le_header
  have hsize := hc.header_le
  have hfields' := stable_fields _ _ _ hfields tail
  rw [← drop_extend hc tail (by omega)] at hfields'
  have hdata : (c.extend tail).bytes.take (c.extend tail).size = c.bytes.take c.size :=
    take_extend hc tail
  rw [StringPool.ofChunk, Step.bind_ok _ hfields']
  simp only [hdata]
  simp only at h
  split at h
  · cases h
  · obtain ⟨⟨texts, behind'⟩, htexts, h⟩ := Step.ok_of_bind h
    have htexts' := read_body_extend hc tail (stable_readStrings _ _ _) htexts
    exact (Step.bind_ok _ htexts').trans h

theorem startedElement_extend {pool : StringPool} {s : State} {e : Element}
    (h : startedElement pool s c = .ok e) : startedElement pool s (c.extend tail) = .ok e := by
  obtain ⟨⟨start, behind⟩, hstart, h⟩ := Step.ok_of_bind h
  have hstart' := read_body_extend hc tail (stable_readElementStart pool) hstart
  rw [startedElement, Step.bind_ok _ hstart']
  refine Step.foldlM_ok_imp (fun e i e' hattribute => ?_) h
  obtain ⟨bs, hseek, hattribute⟩ := Step.ok_of_bind hattribute
  obtain ⟨⟨a, behind'⟩, ha, hattribute⟩ := Step.ok_of_bind hattribute
  have ha' := stable_readAttribute pool s.resourceIds _ _ _ ha tail
  exact (Step.bind_ok _ (seek_extend tail hseek)).trans ((Step.bind_ok _ ha').trans hattribute)

/-! ## Steps -/

namespace State

variable {s s' : State}

theorem startNamespace_extend (h : s.startNamespace c = .ok s') :
    s.startNamespace (c.extend tail) = .ok s' := by
  obtain ⟨pool, hpool, h⟩ := Step.ok_of_bind h
  obtain ⟨⟨pfx, behind⟩, hpfx, h⟩ := Step.ok_of_bind h
  obtain ⟨⟨uri, behind'⟩, huri, h⟩ := Step.ok_of_bind h
  have hpfx' := read_body_extend hc tail stable_word hpfx
  have huri' := stable_word _ _ _ huri tail
  rw [startNamespace, Step.bind_ok _ hpool, Step.bind_ok _ hpfx']
  exact (Step.bind_ok _ huri').trans h

theorem startElement_extend (h : s.startElement c = .ok s') :
    s.startElement (c.extend tail) = .ok s' := by
  obtain ⟨pool, hpool, h⟩ := Step.ok_of_bind h
  obtain ⟨e, he, h⟩ := Step.ok_of_bind h
  rw [startElement, Step.bind_ok _ hpool, Step.bind_ok _ (startedElement_extend hc tail he)]
  exact h

theorem addText_extend (h : s.addText c = .ok s') : s.addText (c.extend tail) = .ok s' := by
  obtain ⟨pool, hpool, h⟩ := Step.ok_of_bind h
  obtain ⟨⟨index, behind⟩, hindex, h⟩ := Step.ok_of_bind h
  have hindex' := read_body_extend hc tail stable_word hindex
  rw [addText, Step.bind_ok _ hpool, Step.bind_ok _ hindex']
  exact h

/-- A chunk that fits does with more input behind it what it did. -/
theorem step_extend (h : s.step c = .ok s') : s.step (c.extend tail) = .ok s' := by
  have hkind : (c.extend tail).kind = c.kind := rfl
  rw [step] at h ⊢
  rw [hkind]
  split_ifs at h ⊢ with hpool hids hnamespace hstart hend htext
  · obtain ⟨pool, hofChunk, rfl⟩ := Step.ok_of_map h
    rw [ofChunk_extend hc tail hofChunk]
    rfl
  · rw [payload_extend hc tail]
    exact h
  · exact startNamespace_extend hc tail h
  · exact startElement_extend hc tail h
  · exact h
  · exact addText_extend hc tail h
  · exact h

end State

end Extend

/-! ## Documents -/

namespace Walk

variable {bs : Bytes} {stop : Nat} {w w' : Walk}

/-- A round that succeeds does so with more input behind it, and comes to the same place. -/
theorem next?_append (h : w.next? bs = .ok w') (tail : Bytes) :
    w.next? (bs ++ tail) = .ok w' := by
  obtain ⟨hforward, hwithin⟩ := advance h
  obtain ⟨c, s, hread, hstep, rfl⟩ := next?_ok_iff.1 h
  obtain ⟨hfits, hread'⟩ := Chunk.read_extend hread
  refine next?_ok_iff.2 ⟨c.extend tail, s, ?_, State.step_extend hfits tail hstep, rfl⟩
  rw [List.drop_append_of_le_length (by omega)]
  exact hread' tail

/-- So does a walk. -/
theorem run?_append {s : State} (h : w.run? bs stop = .ok s) (tail : Bytes) :
    w.run? (bs ++ tail) stop = .ok s := by
  fun_induction run? bs stop w with
  | case1 w hstop =>
    rw [run?_of_le hstop]
    exact h
  | case2 => cases h
  | case3 w hstop w' hnext ih =>
    rw [run?_of_lt (Nat.not_le.1 hstop), Step.bind_ok _ (next?_append hnext tail)]
    exact ih h

end Walk

/-- A document that is read is read as the same tree whatever follows it. -/
theorem decode_append {bs : Bytes} {n : Node} (h : decode bs = .ok n) (tail : Bytes) :
    decode (bs ++ tail) = .ok n := by
  obtain ⟨c, hread, h⟩ := Step.ok_of_bind h
  obtain ⟨hfits, hread'⟩ := Chunk.read_extend hread
  have hkind : (c.extend tail).kind = c.kind := rfl
  rw [decode, Step.bind_ok _ (hread' tail), hkind]
  split at h
  · cases h
  · rename_i hdocument
    obtain ⟨s, hwalk, h⟩ := Step.ok_of_bind h
    rw [if_neg hdocument]
    exact (Step.bind_ok _ (Walk.run?_append hwalk tail)).trans h

/-- The attribute of this document stands outside of the chunk that starts its element,
and another chunk that starts an element follows the document. -/
theorem decode_append_strayAttribute :
    ∃ n, decode (sizedDocument 0x84 0x1c 1 strayAttribute) = .ok n ∧
      decode (sizedDocument 0x84 0x1c 1 strayAttribute ++ [0x02, 0x01, 0x10, 0, 0x24]) = .ok n := by
  obtain ⟨n, h⟩ : ∃ n, decode (sizedDocument 0x84 0x1c 1 strayAttribute) = .ok n :=
    Step.ok_of_isOk (by decide +kernel)
  exact ⟨n, h, decode_append h _⟩

end AppBundle.Xml.Binary
