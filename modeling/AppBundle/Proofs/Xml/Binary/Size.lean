import AppBundle.Proofs.Xml.Binary.Element
import AppBundle.Proofs.Xml.Binary.Limits
import AppBundle.Proofs.Xml.Binary.StringPool
import Mathlib.Algebra.GroupWithZero.Nat

/-!
# How large a document is

The sizes of the chunks of a document can be told from its tree.  `chunkSizes`
lists them, whether or not the document can be written.

`Sized part cond sizes` is what a part of a document is known for: it is written
if and only if a condition holds and each of its chunks fits a 32-bit size, and
then it is as long as these chunks together.  Parts that follow each other are
sized together (`Sized.append`), so a tree is sized by recursion
(`sized_nodeChunks`), the condition being that no element has too many
attributes.

`encode_error_iff` is the result.  A tree is refused if and only if its root is a
text run, an element has too many attributes or a chunk would be too large, and
no lookup is ever made for anything that was not collected before.
-/

namespace AppBundle.Xml.Binary

open Text

/-! ## Sizes -/

/-- The size of a chunk: eight bytes, and the content filled up to words. -/
def chunkSize (content : Nat) : Nat := 8 + (content + 3) / 4 * 4

/-- The size of the chunk of a node, with a line number and a comment before the content. -/
def nodeSize (content : Nat) : Nat := chunkSize (8 + content)

/-- The bytes of a string in the pool: its length, its units and a zero. -/
def entrySize (text : String) : Nat :=
  let count := (Utf16.encode text.toList).length
  2 * ((if count < 0x8000 then 1 else 2) + count + 1)

/-- The size of a string pool. -/
def poolSize (strings : List String) : Nat :=
  chunkSize (20 + strings.length * 4 + (strings.map entrySize).sum)

/-- The size of the resource map, unless it is left out. -/
def resourceMapSizes (names : List IdentifiedName) : List Nat :=
  if names.isEmpty then [] else [chunkSize (names.length * 4)]

/-- The sizes of the starts or the ends of declarations. -/
def declarationSizes (ds : List Declaration) : List Nat := ds.map fun _ => nodeSize 8

/-- The sizes of the start of an element. -/
def startSizes (tag : Tag) : List Nat :=
  declarationSizes tag.declarations ++ [nodeSize (20 + tag.attributes.length * 20)]

/-- The sizes of the end of an element. -/
def endSizes (tag : Tag) : List Nat :=
  nodeSize 8 :: declarationSizes tag.declarations.reverse

mutual

/-- The sizes of the chunks of a tree. -/
def nodeSizes : Node → List Nat
  | .element tag children => startSizes tag ++ nodesSizes children ++ endSizes tag
  | .text _ => [nodeSize 12]

/-- The sizes of the chunks of a list of trees. -/
def nodesSizes : List Node → List Nat
  | [] => []
  | n :: ns => nodeSizes n ++ nodesSizes ns

end

/-- The sizes of the chunks that stand in the document of a tree. -/
def contentSizes (n : Node) : List Nat :=
  let t := StringTable.ofNode n
  poolSize t.strings :: (resourceMapSizes t.identified ++ nodeSizes n)

/-- The sizes of all chunks of the document of a tree, its own size first. -/
def chunkSizes (n : Node) : List Nat := chunkSize (contentSizes n).sum :: contentSizes n

/-! ## Parts of a document -/

/-- Two parts, one after the other. -/
def joined (part part' : Except CodecError Bytes) : Except CodecError Bytes := do
  return (← part) ++ (← part')

/-- Three parts in a row, and what is made of them. -/
theorem joined_bind (x y z : Except CodecError Bytes) (f : Bytes → Except CodecError Bytes) :
    joined (joined x y) z >>= f =
      (do
        let a ← x
        let b ← y
        let c ← z
        f (a ++ b ++ c)) := by
  simp only [joined, bind_assoc, pure_bind]

/-- A part that is written as chunks of these sizes, if each of them fits and a
condition holds. -/
structure Sized (part : Except CodecError Bytes) (cond : Prop) (sizes : List Nat) : Prop where
  /-- The part is written when the condition holds and each size fits. -/
  ok_iff : (∃ bs, part = .ok bs) ↔ cond ∧ ∀ size ∈ sizes, size < UInt32.size
  /-- What is written is as long as its chunks together. -/
  length_eq : ∀ {bs}, part = .ok bs → bs.length = sizes.sum

namespace Sized

variable {part part' : Except CodecError Bytes} {cond cond' : Prop} {sizes sizes' : List Nat}

theorem nil : Sized (pure []) True [] where
  ok_iff := by simp [pure, Except.pure]
  length_eq h := by
    cases h
    rfl

/-- Parts that follow each other are written when both are. -/
theorem append (h : Sized part cond sizes) (h' : Sized part' cond' sizes') :
    Sized (joined part part') (cond ∧ cond') (sizes ++ sizes') where
  ok_iff := by
    have hboth : (∃ bs, joined part part' = .ok bs) ↔
        (∃ bs, part = .ok bs) ∧ ∃ bs, part' = .ok bs := by
      cases part with
      | error e => simp [joined, bind, Except.bind]
      | ok front => cases part' <;> simp [joined, bind, Except.bind, pure, Except.pure]
    rw [hboth, h.ok_iff, h'.ok_iff, List.forall_mem_append, and_and_and_comm]
  length_eq hbs := by
    obtain ⟨front, hfront, hbs⟩ := Step.ok_of_bind hbs
    obtain ⟨back, hback, hbs⟩ := Step.ok_of_bind hbs
    cases hbs
    rw [List.length_append, List.sum_append, h.length_eq hfront, h'.length_eq hback]

/-- A part with a bound on a count in front of it. -/
theorem bounded (h : Sized part True sizes) (e : CodecError) (count : Nat) :
    Sized (if count ≥ UInt16.size then .error e else part) (count ≤ 65535) sizes := by
  by_cases hcount : count ≥ UInt16.size
  · have hbound : ¬ count ≤ 65535 := by
      simp only [UInt16.size] at hcount
      omega
    rw [if_pos hcount]
    exact ⟨by simp [hbound], nofun⟩
  · have hbound : count ≤ 65535 := by
      simp only [UInt16.size] at hcount
      omega
    rw [if_neg hcount]
    exact ⟨by simpa [hbound] using h.ok_iff, h.length_eq⟩

end Sized

/-! ## Chunks -/

variable {content : Bytes} {length : Nat}

theorem sized_chunk (kind header : Nat) (h : content.length = length) :
    Sized (chunk kind header content) True [chunkSize length] := by
  have hpadded : 8 + (content ++ padding content.length).length = chunkSize length := by
    simp only [padding, chunkSize, List.length_append, List.length_replicate]
    omega
  refine ⟨?_, fun h => ?_⟩
  · simp only [chunk, hpadded]
    split <;> simp [*]
  · rw [length_of_chunk h, hpadded, List.sum_singleton]

theorem sized_nodeChunk (kind : Nat) (h : content.length = length) :
    Sized (nodeChunk kind content) True [nodeSize length] := by
  apply sized_chunk
  simp [h]
  omega

theorem length_utf16Data (text : String) : (utf16Data text).length = entrySize text := by
  rw [utf16Data_eq, Bytes.length_flatMap (Bytes.length_ofNat 2), entrySize, lengthUnits]
  split <;> simp <;> omega

theorem sized_poolChunk (strings : List String) :
    Sized (poolChunk strings) True [poolSize strings] := by
  have hentries : (strings.map utf16Data).flatten.length = (strings.map entrySize).sum := by
    simp only [List.length_flatten, List.map_map, Function.comp_def, length_utf16Data]
  have hoffsets : ((offsets 0 (strings.map utf16Data)).flatMap (Bytes.ofNat 4)).length =
      strings.length * 4 := by
    rw [Bytes.length_flatMap (Bytes.length_ofNat 4), length_offsets, List.length_map]
  apply sized_chunk
  simp only [List.length_append, Bytes.length_ofNat, hentries, hoffsets]

theorem sized_resourceMapChunk (names : List IdentifiedName) :
    Sized (resourceMapChunk names) True (resourceMapSizes names) := by
  rw [resourceMapChunk, resourceMapSizes]
  split
  · exact .nil
  · exact sized_chunk _ _ (Bytes.length_flatMap (fun _ => Bytes.length_ofNat 4 _) names)

/-! ## Elements and text runs -/

section Covered

variable {t : StringTable} {tag : Tag}

section Tags

variable (ht : t.Covers (tagStrings tag) (tagNames tag))

include ht

theorem sized_namespaceChunk (kind : Nat) {d : Declaration} (hd : d ∈ tag.declarations) :
    Sized (namespaceChunk kind t d) True [nodeSize 8] := by
  obtain ⟨hpfx, huri⟩ := mem_tagStrings_of_mem_declarations hd
  obtain ⟨i, hi⟩ := ht.ok fun e => missed_of_index? hpfx
  obtain ⟨j, hj⟩ := ht.ok fun e => missed_of_index? huri
  rw [namespaceChunk, Step.bind_ok _ hi, Step.bind_ok _ hj]
  exact sized_nodeChunk kind rfl

/-- The starts or the ends of the declarations of an element, in any order. -/
theorem sized_declarations (kind : Nat) {ds : List Declaration} (hds : ds ⊆ tag.declarations) :
    Sized (List.flatten <$> ds.mapM (namespaceChunk kind t)) True (declarationSizes ds) := by
  induction ds with
  | nil => exact .nil
  | cons d ds ih =>
    obtain ⟨hd, hds⟩ := List.cons_subset.1 hds
    simpa [declarationSizes, joined] using (sized_namespaceChunk ht kind hd).append (ih hds)

/-- The name and the attributes of an element are written, whatever their number. -/
theorem exists_attributes : ∃ rows, tag.attributes.mapM (attributeBytes t) = .ok rows ∧
    rows.length = tag.attributes.length ∧ rows.flatten.length = tag.attributes.length * 20 := by
  obtain ⟨rows, hrows⟩ := Step.mapM_ok_of_forall (f := attributeBytes t) fun a ha =>
    ht.ok fun e => missed_of_attributeBytes ha
  have hlength := Step.length_of_mapM hrows
  have hrow : ∀ row ∈ rows, row.length = 20 := by
    intro row hrow
    obtain ⟨a, -, ha⟩ := (Step.mem_of_mapM hrows).1 hrow
    exact length_attributeBytes ha
  refine ⟨rows, hrows, hlength, ?_⟩
  rw [List.length_flatten, List.map_congr_left hrow, List.map_const', List.sum_replicate_nat,
    hlength]

theorem sized_startChunks :
    Sized (startChunks t tag) (tag.attributes.length ≤ 65535) (startSizes tag) := by
  obtain ⟨name, hname⟩ := ht.ok fun e => missed_of_tagName
  obtain ⟨rows, hrows, hcount, hlength⟩ := exists_attributes ht
  have hcontent : (startHeader name rows.length ++ rows.flatten).length =
      20 + tag.attributes.length * 20 := by
    simp only [startHeader, List.length_append, Bytes.length_ofNat, length_tagName hname, hlength]
  have hstart := (sized_nodeChunk startElementKind hcontent).bounded
    (.tooManyAttributes tag.name) rows.length
  have hboth := (sized_declarations ht startNamespaceKind (List.Subset.refl _)).append hstart
  rw [true_and, hcount] at hboth
  have hsplit : startChunks t tag =
      joined (List.flatten <$> tag.declarations.mapM (namespaceChunk startNamespaceKind t))
        (if tag.attributes.length ≥ UInt16.size then .error (.tooManyAttributes tag.name)
          else nodeChunk startElementKind
            (startHeader name tag.attributes.length ++ rows.flatten)) := by
    rw [joined, map_eq_pure_bind, bind_assoc]
    refine bind_congr fun declarations => ?_
    rw [Step.bind_ok _ hname, Step.bind_ok _ hrows, hcount]
    split <;> rfl
  rw [hsplit]
  exact hboth

theorem sized_endChunks : Sized (endChunks t tag) True (endSizes tag) := by
  obtain ⟨name, hname⟩ := ht.ok fun e => missed_of_tagName
  have hboth := (sized_nodeChunk endElementKind (length_tagName hname)).append
    (sized_declarations ht endNamespaceKind fun d hd => List.mem_reverse.1 hd)
  rw [endChunks, Step.bind_ok _ hname]
  simpa [endSizes, joined] using hboth

end Tags

theorem sized_textChunk {text : String} (ht : t.Covers [text] []) :
    Sized (textChunk t text) True [nodeSize 12] := by
  obtain ⟨i, hi⟩ := ht.ok fun e => missed_of_index? List.mem_cons_self
  rw [textChunk, Step.bind_ok _ hi]
  exact sized_nodeChunk textKind rfl

/-! ## Trees -/

mutual

/-- A tree is written when no element has too many attributes and each of its chunks fits. -/
theorem sized_nodeChunks : ∀ {n : Node}, t.Covers (nodeStrings n) (identifiedNames n) →
    Sized (nodeChunks t n) (∀ e ∈ n.elements, e.attributes.length ≤ 65535) (nodeSizes n)
  | .text text, ht => by
    have h := sized_textChunk ht
    rw [nodeChunks, nodeSizes]
    simpa [Node.elements] using h
  | .element tag children, ht => by
    have htag := ht.mono (List.subset_append_left (tagStrings tag) _)
      (List.subset_append_left (tagNames tag) (nodesNames children))
    have hchildren := ht.mono (List.subset_append_right _ (nodesStrings children))
      (List.subset_append_right (tagNames tag) _)
    have hall := ((sized_startChunks htag).append (sized_nodesChunks hchildren)).append
      (sized_endChunks htag)
    have hsplit := joined_bind (startChunks t tag) (nodesChunks t children) (endChunks t tag) pure
    rw [bind_pure] at hsplit
    rw [nodeChunks, nodeSizes, Node.elements, List.forall_mem_cons, ← hsplit]
    simpa using hall

theorem sized_nodesChunks : ∀ {ns : List Node}, t.Covers (nodesStrings ns) (nodesNames ns) →
    Sized (nodesChunks t ns) (∀ e ∈ Node.elementsAll ns, e.attributes.length ≤ 65535)
      (nodesSizes ns)
  | [], ht => by
    rw [nodesChunks, nodesSizes]
    simpa [Node.elementsAll] using Sized.nil
  | n :: ns, ht => by
    rw [nodesStrings, nodesNames_cons] at ht
    have hfirst := ht.mono (List.subset_append_left (nodeStrings n) _)
      (List.subset_append_left (identifiedNames n) _)
    have hrest := ht.mono (List.subset_append_right _ (nodesStrings ns))
      (List.subset_append_right _ (nodesNames ns))
    rw [nodesChunks, nodesSizes, Node.elementsAll, List.forall_mem_append]
    exact (sized_nodeChunks hfirst).append (sized_nodesChunks hrest)

end

end Covered

/-! ## Documents -/

/-- A part enclosed in a chunk is written when it is, and its chunk fits. -/
theorem Sized.enclosed {part : Except CodecError Bytes} {cond : Prop} {sizes : List Nat}
    (h : Sized part cond sizes) (kind header : Nat) :
    (∃ bs, part >>= chunk kind header = .ok bs) ↔
      cond ∧ ∀ size ∈ chunkSize sizes.sum :: sizes, size < UInt32.size := by
  have hpart := h.ok_iff
  rw [List.forall_mem_cons, and_left_comm, ← hpart]
  cases part with
  | error e => simp [bind, Except.bind]
  | ok content =>
    rw [Step.bind_ok (chunk kind header) rfl]
    simpa using (sized_chunk kind header (h.length_eq rfl)).ok_iff

/-- A tree whose root is an element is written when no element has too many
attributes and each chunk of its document fits. -/
theorem exists_encode_iff {n : Node} (hn : n.element?.isSome) : (∃ bs, encode n = .ok bs) ↔
    (∀ e ∈ n.elements, e.attributes.length ≤ 65535) ∧
      ∀ size ∈ chunkSizes n, size < UInt32.size := by
  have hcontent := ((sized_poolChunk (StringTable.ofNode n).strings).append
    (sized_resourceMapChunk (StringTable.ofNode n).identified)).append
    (sized_nodeChunks (covers_ofNode n))
  have hdocument := hcontent.enclosed documentKind 8
  rw [joined_bind, true_and, true_and] at hdocument
  cases n with
  | text text => cases hn
  | element tag children => exact hdocument

/-- A tree is refused if and only if its root is a text run, an element has more
attributes than its count can say or a chunk is larger than its size can say.  No
string and no attribute name is missed, since whatever the table, only what was
collected from the tree is looked up in it. -/
theorem encode_error_iff (n : Node) :
    ((∃ e, encode n = .error e) ↔ n.element? = none ∨
      (∃ e ∈ n.elements, 65535 < e.attributes.length) ∨
        ∃ size ∈ chunkSizes n, 2 ^ 32 - 1 < size) ∧
      (∀ text, encode n ≠ .error (.unlistedString text)) ∧
        (∀ name, encode n ≠ .error (.unlistedAttribute name)) ∧
          ∀ t e, nodeChunks t n = .error e →
            e.IsLimit ∨
              Missed t (StringTable.ofNode n).others (StringTable.ofNode n).identified e := by
  have hlimit : ∀ e, encode n = .error e → e = .rootIsText ∨ e.IsLimit := by
    intro e h
    cases n with
    | text text =>
      cases h
      exact .inl rfl
    | element tag children => exact .inr (isLimit_of_encode rfl h)
  have hcovers := covers_ofNode n
  refine ⟨?_, fun text h => ?_, fun name h => ?_, fun t e h => ?_⟩
  · cases n with
    | text text => simp [encode, Node.element?]
    | element tag children =>
      have hsize : ∀ size : Nat, 2 ^ 32 - 1 < size ↔ ¬ size < UInt32.size := by
        simp only [UInt32.size]
        omega
      rw [Step.exists_error_iff, exists_encode_iff rfl, Classical.not_and_iff_not_or_not]
      simp only [Node.element?, reduceCtorEq, false_or, Classical.not_forall, Nat.not_le,
        exists_prop, ← hsize]
  · rcases hlimit _ h with hroot | hfalse
    · cases hroot
    · exact hfalse
  · rcases hlimit _ h with hroot | hfalse
    · cases hroot
    · exact hfalse
  · exact (refused_of_nodeChunks h).mono hcovers.texts_subset hcovers.names_subset

/-- A text is no document, and with a table that lacks it no part of one. -/
theorem encode_error_iff_text :
    (∃ e, encode (.text "a") = .error e) ∧
      ∃ t, nodeChunks t (.text "a") = .error (.unlistedString "a") ∧
        "a" ∈ (StringTable.ofNode (.text "a")).others ∧ "a" ∉ t.others := by
  obtain ⟨hfails, -, -, hlookups⟩ := encode_error_iff (.text "a")
  have hlookup : nodeChunks (StringTable.ofNode (.element { name := "b" } [])) (.text "a") =
      .error (.unlistedString "a") := by decide +kernel
  refine ⟨hfails.2 (.inl rfl), _, hlookup, ?_⟩
  rcases hlookups _ _ hlookup with hlimit | hmissed
  · cases hlimit
  · cases hmissed with
    | string hlisted hmissing => exact ⟨hlisted, hmissing⟩

/-- The sizes of the document, the string pool, the start and the end. -/
example : chunkSizes (.element { name := "a" } []) = [108, 40, 36, 24] := by decide +kernel

end AppBundle.Xml.Binary
