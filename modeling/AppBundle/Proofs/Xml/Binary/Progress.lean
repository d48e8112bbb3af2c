import AppBundle.Proofs.Xml.Binary.Bounds
import AppBundle.Proofs.Xml.Binary.Decoded
import Mathlib.Algebra.GroupWithZero.Nat

/-!
# A reader goes on and ends

A reader of a document walks over a row of chunks, round by round.  The step of a
round may look anywhere in the input, but the position that it leaves is told by the
header of the chunk alone.  So a round that succeeds leaves the position at least
eight bytes further, and within the input (`Walk.advance`).

`Walk.Runs` is a walk that comes to an end, with the number of its rounds.  Every
walk runs (`Walk.exists_runs`), and its outcome is that of the reader
(`Walk.Runs.eq_run?`).

A round makes no more than one half of an element, or one text run
(`State.parts_of_step`).  So the number of rounds bounds what a walk has built
(`Walk.Runs.parts_le`), and the length of the input bounds the tree.
-/

namespace AppBundle.Xml

/-! ## The parts of a tree -/

namespace Node

mutual

/-- The text runs of a tree, in document order. -/
def texts : Node → List String
  | element _ children => textsAll children
  | text s => [s]

/-- The text runs of a list of trees. -/
def textsAll : List Node → List String
  | [] => []
  | n :: ns => texts n ++ textsAll ns

end

/-- The parts of a list of trees: the start and the end of each element, and each text run. -/
def partsAll (ns : List Node) : Nat := 2 * (elementsAll ns).length + (textsAll ns).length

/-- The parts of a tree. -/
def parts (n : Node) : Nat := 2 * n.elements.length + n.texts.length

theorem partsAll_append (ms ns : List Node) :
    partsAll (ms ++ ns) = partsAll ms + partsAll ns := by
  induction ms with
  | nil => simp [partsAll, elementsAll, textsAll]
  | cons m ms ih =>
    simp only [partsAll, List.cons_append, elementsAll, textsAll, List.length_append] at ih ⊢
    omega

theorem partsAll_singleton (n : Node) : partsAll [n] = n.parts := by
  simp [partsAll, parts, elementsAll, textsAll]

end Node

namespace Element

/-- The parts of an element that is still open: its start and those of its children. -/
def openParts (e : Element) : Nat := 1 + Node.partsAll e.children

/-- The end of an element is one more part. -/
theorem parts_toNode (e : Element) : e.toNode.parts = e.openParts + 1 := by
  simp only [toNode, Node.ofElement, Node.parts, Node.elements, Node.texts, openParts,
    Node.partsAll, List.length_cons]
  omega

theorem openParts_push (e : Element) (n : Node) : (e.push n).openParts = e.openParts + n.parts := by
  rw [openParts, push, Node.partsAll_append, Node.partsAll_singleton, openParts, Nat.add_assoc]

theorem openParts_pushElement (e child : Element) :
    (e.pushElement child).openParts = e.openParts + (child.openParts + 1) := by
  rw [pushElement, openParts_push, parts_toNode]

theorem openParts_pushText (e : Element) (text : String) :
    (e.pushText text).openParts = e.openParts + 1 := openParts_push e (.text text)

end Element

namespace Binary

/-! ## What a round builds -/

namespace State

/-- The parts that have been built so far, in the open elements and in the root. -/
def parts (s : State) : Nat :=
  (s.opened.map Element.openParts).sum + (s.root.map fun e => e.toNode.parts).getD 0

variable {s s' : State} {c : Chunk}

theorem parts_of_startNamespace (h : s.startNamespace c = .ok s') : s'.parts = s.parts := by
  obtain ⟨pool, -, h⟩ := Step.ok_of_bind h
  obtain ⟨⟨pfx, rest⟩, -, h⟩ := Step.ok_of_bind h
  obtain ⟨⟨uri, _⟩, -, h⟩ := Step.ok_of_bind h
  obtain ⟨text, -, h⟩ := Step.ok_of_bind h
  cases h
  rfl

/-- The start of an element is a part. -/
theorem parts_of_startElement (h : s.startElement c = .ok s') : s'.parts = s.parts + 1 := by
  obtain ⟨pool, -, h⟩ := Step.ok_of_bind h
  obtain ⟨e, he, h⟩ := Step.ok_of_bind h
  cases h
  have hopen : e.openParts = 1 := by
    rw [Element.openParts, (started_of_startedElement he).children_eq]
    rfl
  simp only [parts, List.map_cons, List.sum_cons, hopen]
  omega

/-- The end of an element is a part, wherever the element goes. -/
theorem parts_of_endElement (h : s.endElement = .ok s') : s'.parts = s.parts + 1 := by
  simp only [endElement] at h
  split at h
  · cases h
  · rename_i e parent opened hopened
    cases h
    simp only [parts, hopened, List.map_cons, List.sum_cons, Element.openParts_pushElement]
    omega
  · rename_i e hopened
    split at h
    · rename_i hroot
      cases h
      simp only [parts, hopened, Option.isNone_iff_eq_none.1 hroot, List.map_cons, List.map_nil,
        List.sum_cons, List.sum_nil, Option.map_some, Option.map_none, Option.getD_some,
        Option.getD_none, Element.parts_toNode]
      omega
    · cases h

/-- A text run is a part, unless it stands outside of the root. -/
theorem parts_of_addText (h : s.addText c = .ok s') : s'.parts ≤ s.parts + 1 := by
  obtain ⟨pool, -, h⟩ := Step.ok_of_bind h
  obtain ⟨⟨index, _⟩, -, h⟩ := Step.ok_of_bind h
  obtain ⟨text, -, h⟩ := Step.ok_of_bind h
  split at h
  · cases h
    omega
  · rename_i e opened hopened
    cases h
    simp only [parts, hopened, List.map_cons, List.sum_cons, Element.openParts_pushText]
    omega

/-- A chunk builds no more than one part. -/
theorem parts_of_step (h : s.step c = .ok s') : s'.parts ≤ s.parts + 1 := by
  simp only [step] at h
  split at h
  · obtain ⟨pool, -, rfl⟩ := Step.ok_of_map h
    exact Nat.le_succ _
  split at h
  · cases h
    exact Nat.le_succ _
  split at h
  · have hparts := parts_of_startNamespace h
    omega
  split at h
  · exact Nat.le_of_eq (parts_of_startElement h)
  split at h
  · exact Nat.le_of_eq (parts_of_endElement h)
  split at h
  · exact parts_of_addText h
  · cases h
    exact Nat.le_succ _

/-- In the end all parts are those of the root. -/
theorem parts_of_finish {e : Element} (h : s.finish = .ok e) : s.parts = e.toNode.parts := by
  simp only [finish] at h
  split at h
  · cases h
  · rename_i root hopened hroot
    cases h
    simp [parts, hopened, hroot]
  · cases h

end State

/-! ## Rounds -/

namespace Walk

/-- A walk that comes to an end: how many rounds succeed before the position reaches `stop`
or a round fails, and the outcome. -/
inductive Runs (input : Bytes) (stop : Nat) : Walk → Nat → Except CodecError State → Prop where
  /-- The walk is at the end. -/
  | done {w : Walk} (hstop : stop ≤ w.position) : Runs input stop w 0 (.ok w.state)
  /-- The next round fails. -/
  | fail {w : Walk} {e : CodecError} (hstop : w.position < stop)
    (hnext : w.next? input = .error e) : Runs input stop w 0 (.error e)
  /-- The next round succeeds, and the walk goes on. -/
  | next {w w' : Walk} {count : Nat} {outcome : Except CodecError State} (hstop : w.position < stop)
    (hnext : w.next? input = .ok w') (hrest : Runs input stop w' count outcome) :
    Runs input stop w (count + 1) outcome

variable {input : Bytes} {stop count : Nat} {w w' : Walk} {outcome : Except CodecError State}

theorem parts_of_next? (h : w.next? input = .ok w') : w'.state.parts ≤ w.state.parts + 1 := by
  obtain ⟨c, s, -, hstep, rfl⟩ := next?_ok_iff.1 h
  exact State.parts_of_step hstep

/-! ## Runs -/

/-- Every walk runs. -/
theorem exists_runs (input : Bytes) (stop : Nat) (w : Walk) :
    ∃ count outcome, Runs input stop w count outcome := by
  by_cases hstop : stop ≤ w.position
  · exact ⟨_, _, .done hstop⟩
  · cases hnext : w.next? input with
    | error e => exact ⟨_, _, .fail (by omega) hnext⟩
    | ok w' =>
      have hadvance := advance hnext
      obtain ⟨count, outcome, hrest⟩ := exists_runs input stop w'
      exact ⟨_, _, .next (by omega) hnext hrest⟩
termination_by input.length - w.position

namespace Runs

/-- Each round takes eight bytes of the input. -/
theorem count_le (h : Runs input stop w count outcome) :
    8 * count ≤ input.length - w.position := by
  induction h with
  | done => omega
  | fail => omega
  | next _ hnext _ ih =>
    have hadvance := advance hnext
    omega

/-- A walk has built no more parts than its rounds. -/
theorem parts_le {s : State} (h : Runs input stop w count (.ok s)) :
    s.parts ≤ w.state.parts + count := by
  generalize houtcome : Except.ok s = outcome at h
  induction h with
  | done =>
    cases houtcome
    omega
  | fail => cases houtcome
  | next _ hnext _ ih =>
    have hfirst := parts_of_next? hnext
    have hrest := ih houtcome
    omega

/-- The outcome of a walk is that of the reader. -/
theorem eq_run? (h : Runs input stop w count outcome) : outcome = w.run? input stop := by
  induction h with
  | done hstop => rw [run?_of_le hstop]
  | fail hstop hnext =>
    rw [run?_of_lt hstop, hnext]
    rfl
  | next hstop hnext _ ih => rw [run?_of_lt hstop, Step.bind_ok _ hnext, ih]

end Runs

end Walk

/-! ## Documents -/

/-- A reader walks from the end of the header of a document to the end of the document. -/
theorem decode_of_runs {input : Bytes} {c : Chunk} {count : Nat} {outcome : Except CodecError State}
    (hread : Chunk.read input = .ok c) (hkind : c.kind = documentKind)
    (h : Walk.Runs input c.size ⟨c.headerSize, {}⟩ count outcome) :
    decode input = outcome >>= fun s => (·.toNode) <$> s.finish := by
  rw [h.eq_run?, decode, Step.bind_ok _ hread, if_neg (not_not_intro hkind)]
  rfl

/-- The tree of a document has no more parts than the document has room for, each in eight
bytes, behind the eight bytes of its own header. -/
theorem parts_le_of_decode {input : Bytes} {n : Node} (h : decode input = .ok n) :
    8 * (n.parts + 1) ≤ input.length := by
  obtain ⟨c, hread, hrest⟩ := Step.ok_of_bind h
  by_cases hkind : c.kind = documentKind
  · obtain ⟨count, outcome, hruns⟩ := Walk.exists_runs input c.size ⟨c.headerSize, {}⟩
    rw [decode_of_runs hread hkind hruns] at h
    obtain ⟨s, rfl, h⟩ := Step.ok_of_bind h
    obtain ⟨e, hfinish, rfl⟩ := Step.ok_of_map h
    obtain ⟨-, -, hheader, hchunk, hlength, -⟩ := Chunk.read_ok_iff.1 hread
    have hcount := hruns.count_le
    have hparts := hruns.parts_le
    rw [State.parts_of_finish hfinish] at hparts
    have hinitial : State.parts {} = 0 := rfl
    simp only [hinitial] at hcount hparts
    omega
  · rw [if_pos hkind] at hrest
    cases hrest

/-- A round that succeeds leaves the position at least eight bytes further, and within the
input, wherever the walk is and whatever it has built.  So every walk runs to its end, in
no more rounds than the input has room for, and the walk of a document has the outcome
that the reader has.  A tree that it builds has two chunks for each element and one for
each text run, each in eight bytes, behind the header of the document. -/
theorem rounds_bound_tree (input : Bytes) :
    (∀ w w' : Walk, w.next? input = .ok w' →
      w.position + 8 ≤ w'.position ∧ w'.position ≤ input.length) ∧
    (∀ stop w, ∃ count outcome, Walk.Runs input stop w count outcome ∧
      8 * count ≤ input.length - w.position) ∧
    (∀ c count outcome, Chunk.read input = .ok c → c.kind = documentKind →
      Walk.Runs input c.size ⟨c.headerSize, {}⟩ count outcome →
        decode input = outcome >>= fun s => (·.toNode) <$> s.finish) ∧
    ∀ n, decode input = .ok n →
      8 * (2 * n.elements.length + n.texts.length + 1) ≤ input.length := by
  refine ⟨fun w w' => Walk.advance, fun stop w => ?_, fun c count outcome => decode_of_runs,
    fun n => parts_le_of_decode⟩
  obtain ⟨count, outcome, hruns⟩ := Walk.exists_runs input stop w
  exact ⟨count, outcome, hruns, hruns.count_le⟩

theorem rounds_bound_tree_foreignDocument :
    (∃ w', Walk.next? foreignDocument ⟨8, {}⟩ = .ok w' ∧ 16 ≤ w'.position ∧
      w'.position ≤ foreignDocument.length) ∧
    ∃ n, decode foreignDocument = .ok n ∧
      8 * (2 * n.elements.length + n.texts.length + 1) ≤ foreignDocument.length := by
  obtain ⟨hadvance, -, -, hbound⟩ := rounds_bound_tree foreignDocument
  obtain ⟨w', hnext⟩ : ∃ w', Walk.next? foreignDocument ⟨8, {}⟩ = .ok w' :=
    Step.ok_of_isOk (by decide +kernel)
  obtain ⟨n, hn⟩ : ∃ n, decode foreignDocument = .ok n := Step.ok_of_isOk (by decide +kernel)
  exact ⟨⟨w', hnext, hadvance _ w' hnext⟩, n, hn, hbound n hn⟩

end Binary

end AppBundle.Xml
