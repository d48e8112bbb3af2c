import AppBundle.Path
import AppBundle.Proofs.Reading
import AppBundle.Proofs.Text.Span
import Mathlib.Data.List.TakeDrop

/-!
# Paths and their texts

The text of a path is read back as the path (`Path.ofText?_toText`): no segment
holds a separator, so the text falls apart where it was put together, and no
segment is empty, so none of the pieces is left out.  Hence a path has no text
in common with another (`Path.toText_inj`), however many texts lead to it.

A path is read from a text, or made of segments, of other paths or of a stretch of
one; an `Origin` says which.  Segments are looked at only where they come in.  All
that comes later cuts and joins lists, and on plain lists it is the same
(`Origin.segments?`): the segments of the path are those of the list
(`Origin.map_path?`).  So each path has its normal form whatever its origin
(`Path.text_normal`), and which texts lead to it is a matter of their pieces.
-/

namespace AppBundle.Path

variable {p q : Path} {names : List String} {text : String}

/-! ## Reading and writing -/

/-- Segments that are allowed are taken as they are. -/
theorem ofNames?_of_forall {names : List String} (h : ∀ name ∈ names, IsSegment name) :
    ofNames? names = .ok ⟨names, h⟩ := by
  induction names with
  | nil => rfl
  | cons name names ih =>
    obtain ⟨hname, hnames⟩ := List.forall_mem_cons.1 h
    rw [ofNames?, dif_pos hname, ih hnames]
    rfl

theorem names_of_ofNames? (h : ofNames? names = .ok p) : p.names = names := by
  induction names generalizing p with
  | nil =>
    cases h
    rfl
  | cons name names ih =>
    rw [ofNames?] at h
    split at h
    · obtain ⟨p', hp', rfl⟩ := Step.ok_of_map h
      exact congrArg (name :: ·) (ih hp')
    · cases h

/-- Segments make a path when all are allowed. -/
theorem exists_ofNames?_iff : (∃ p, ofNames? names = .ok p) ↔ ∀ name ∈ names, IsSegment name := by
  constructor
  · rintro ⟨p, hp⟩
    rw [← names_of_ofNames? hp]
    exact p.segments
  · intro h
    exact ⟨_, ofNames?_of_forall h⟩

/-- The text of a path has the segments of the path for its pieces. -/
theorem pieces_toText (p : Path) : pieces p.toText = p.names :=
  Text.pieces_intercalate rfl fun name hname =>
    ⟨(p.segments name hname).1, (p.segments name hname).2.1⟩

/-- A path is read back from its text. -/
theorem ofText?_toText (p : Path) : ofText? p.toText = .ok p := by
  rw [ofText?, pieces_toText]
  exact ofNames?_of_forall p.segments

/-- Paths with one text are the same. -/
theorem toText_inj {p q : Path} : p.toText = q.toText ↔ p = q := by
  constructor
  · intro h
    have hread := ofText?_toText p
    rw [h, ofText?_toText q] at hread
    exact (Except.ok.inj hread).symm
  · rintro rfl
    rfl

/-! ## Pieces of a text -/

/-- The pieces of a text between separators, empty ones among them. -/
def allPieces (text : String) : List String := (text.toList.splitOn '/').map String.ofList

theorem not_mem_of_mem_allPieces {part : String} (h : part ∈ allPieces text) :
    '/' ∉ part.toList := by
  obtain ⟨piece, hpiece, rfl⟩ := List.mem_map.1 h
  rw [String.toList_ofList]
  exact Text.not_mem_of_mem_splitOn hpiece

/-- Joined again, the pieces are the text. -/
theorem intercalate_allPieces (text : String) : "/".intercalate (allPieces text) = text := by
  have hseparator : ("/" : String).toList = ['/'] := rfl
  have hpieces : (allPieces text).map String.toList = text.toList.splitOn '/' := by
    rw [allPieces, List.map_map]
    exact (List.map_congr_left fun _ _ => String.toList_ofList).trans (List.map_id _)
  apply String.toList_inj.1
  rw [String.toList_intercalate, hseparator, hpieces, List.intercalate_splitOn]

theorem pieces_eq_filter (text : String) : pieces text = (allPieces text).filter (· ≠ "") := by
  rw [pieces, allPieces, List.filter_map]
  congr 1
  refine List.filter_congr fun l _ => ?_
  simp

theorem mem_pieces_iff {part : String} :
    part ∈ pieces text ↔ part ∈ allPieces text ∧ part ≠ "" := by
  rw [pieces_eq_filter, List.mem_filter, decide_eq_true_iff]

/-- A separator keeps pieces apart. -/
theorem pieces_append (text rest : String) :
    pieces (text ++ "/" ++ rest) = pieces text ++ pieces rest := by
  simp [pieces, List.splitOn_append_cons_self]

/-- A text writes a path when none of its pieces stands for another place. -/
theorem exists_ofText?_iff :
    (∃ p, ofText? text = .ok p) ↔ "." ∉ allPieces text ∧ ".." ∉ allPieces text := by
  rw [ofText?, exists_ofNames?_iff]
  constructor
  · intro h
    have hnot : ∀ part, part ≠ "" → ¬ IsSegment part → part ∉ allPieces text :=
      fun part hne hnot hmem => hnot (h part (mem_pieces_iff.2 ⟨hmem, hne⟩))
    exact ⟨hnot _ (by decide) (by decide), hnot _ (by decide) (by decide)⟩
  · rintro ⟨hdot, hdots⟩ part hpart
    obtain ⟨hmem, hne⟩ := mem_pieces_iff.1 hpart
    exact ⟨hne, not_mem_of_mem_allPieces hmem, fun heq => hdot (heq ▸ hmem),
      fun heq => hdots (heq ▸ hmem)⟩

/-! ## Cutting -/

/-- All but the last member of a list that has one. -/
def butLast? (names : List String) : Option (List String) :=
  if names = [] then none else some names.dropLast

/-- The parent has all segments but the last. -/
theorem map_parent? (p : Path) : p.parent?.map (·.names) = butLast? p.names := by
  by_cases h : p.names = []
  · simp [parent?, isRoot, butLast?, h]
  · simp [parent?, isRoot, butLast?, h, cut, List.dropLast_eq_take]

/-- The file name is the last segment. -/
theorem map_fileName? (p : Path) :
    p.fileName?.map (·.names) = (do return [← p.names.getLast?]) := by
  by_cases h : p.names = []
  · simp [fileName?, isRoot, h]
  · simp [fileName?, isRoot, h, cut, List.drop_length_sub_one, List.getLast?_eq_some_getLast]

/-! ## Where paths come from -/

/-- How a path comes about. -/
inductive Origin where
  /-- It is written by a text, be it a text of its own or one that a document holds. -/
  | text (text : String)
  /-- It is made of segments. -/
  | names (names : List String)
  /-- It is a path continued with another. -/
  | resolve (p q : Origin)
  /-- It is a path continued with what a text writes. -/
  | resolveText (p : Origin) (text : String)
  /-- It is a path with the last segment replaced by another path. -/
  | sibling (p q : Origin)
  /-- It is a path with the last segment replaced by what a text writes. -/
  | siblingText (p : Origin) (text : String)
  /-- It is a stretch of a path. -/
  | subpath (p : Origin) (first last : Nat)
  /-- It is a segment of a path. -/
  | segment (p : Origin) (index : Nat)
  /-- It is a path without the last segment. -/
  | parent (p : Origin)
  /-- It is the last segment of a path. -/
  | fileName (p : Origin)

namespace Origin

/-- The path that came about, unless one of the steps failed. -/
def path? : Origin → Option Path
  | .text s => (ofText? s).toOption
  | .names ns => (ofNames? ns).toOption
  | .resolve p q => do return (← p.path?).resolve (← q.path?)
  | .resolveText p s => do ((← p.path?).resolveText? s).toOption
  | .sibling p q => do ((← p.path?).resolveSibling? (← q.path?)).toOption
  | .siblingText p s => do ((← p.path?).resolveSiblingText? s).toOption
  | .subpath p first last => do ((← p.path?).subpath? first last).toOption
  | .segment p index => do ((← p.path?).segment? index).toOption
  | .parent p => do (← p.path?).parent?
  | .fileName p => do (← p.path?).fileName?

/-- Segments that come in are looked at. -/
def allowed? (ns : List String) : Option (List String) :=
  if ∀ name ∈ ns, IsSegment name then some ns else none

/-- The segments of the path, cut and joined as lists that nobody looks at again. -/
def segments? : Origin → Option (List String)
  | .text s => allowed? (pieces s)
  | .names ns => allowed? ns
  | .resolve p q => do return (← p.segments?) ++ (← q.segments?)
  | .resolveText p s => do return (← p.segments?) ++ (← allowed? (pieces s))
  | .sibling p q => do
    let ns ← p.segments?
    let others ← q.segments?
    return (← butLast? ns) ++ others
  | .siblingText p s => do return (← butLast? (← p.segments?)) ++ (← allowed? (pieces s))
  | .subpath p first last => do
    let ns ← p.segments?
    if first < last ∧ last ≤ ns.length then some ((ns.take last).drop first) else none
  | .segment p index => do return [← (← p.segments?)[index]?]
  | .parent p => do butLast? (← p.segments?)
  | .fileName p => do return [← (← p.segments?).getLast?]

theorem map_ofNames? (ns : List String) :
    (ofNames? ns).toOption.map (·.names) = allowed? ns := by
  rw [allowed?]
  split
  · rename_i h
    rw [ofNames?_of_forall h]
    rfl
  · rename_i h
    obtain ⟨fault, hfault⟩ := Step.exists_error_iff.2 fun hok => h (exists_ofNames?_iff.1 hok)
    rw [hfault]
    rfl

theorem map_resolveText? (p : Path) (s : String) :
    (p.resolveText? s).toOption.map (·.names) = (do return p.names ++ (← allowed? (pieces s))) := by
  rw [← map_ofNames?, resolveText?, ofText?]
  cases ofNames? (pieces s) <;> rfl

theorem map_resolveSibling? (p q : Path) :
    (p.resolveSibling? q).toOption.map (·.names) =
      (do return (← butLast? p.names) ++ q.names) := by
  rw [← map_parent?, resolveSibling?]
  cases p.parent? <;> rfl

theorem map_resolveSiblingText? (p : Path) (s : String) :
    (p.resolveSiblingText? s).toOption.map (·.names) =
      (do return (← butLast? p.names) ++ (← allowed? (pieces s))) := by
  rw [← map_ofNames?, ← map_parent?, resolveSiblingText?, ofText?]
  simp only [Except.bind, resolveSibling?]
  cases ofNames? (pieces s) <;> cases p.parent? <;> rfl

theorem map_subpath? (p : Path) (first last : Nat) :
    (p.subpath? first last).toOption.map (·.names) =
      if first < last ∧ last ≤ p.names.length then some ((p.names.take last).drop first)
      else none := by
  rw [subpath?]
  split <;> rfl

theorem map_segment? (p : Path) (index : Nat) :
    (p.segment? index).toOption.map (·.names) = (do return [← p.names[index]?]) := by
  rw [segment?, map_subpath?]
  by_cases h : index < p.names.length
  · rw [if_pos ⟨Nat.lt_succ_self index, h⟩, List.getElem?_eq_getElem h, List.drop_take,
      List.drop_eq_getElem_cons h, Nat.add_sub_cancel_left]
    rfl
  · rw [if_neg fun hrange => h hrange.2, List.getElem?_eq_none (Nat.not_lt.1 h)]
    rfl

/-- A step that takes a path as its segments are taken goes on as they do. -/
theorem map_bind {f : Path → Option Path} {g : List String → Option (List String)}
    (h : ∀ p, (f p).map (·.names) = g p.names) (found : Option Path) :
    (found >>= f).map (·.names) = found.map (·.names) >>= g := by
  cases found with
  | none => rfl
  | some p => exact h p

/-- What came about has the segments of the plain lists, and nothing came about where
these have none. -/
theorem map_path? (o : Origin) : o.path?.map (·.names) = o.segments? := by
  induction o with
  | text s => exact map_ofNames? (pieces s)
  | names ns => exact map_ofNames? ns
  | resolve p q ihp ihq =>
    rw [segments?, path?, ← ihp, ← ihq]
    exact map_bind (fun _ => map_bind (fun _ => rfl) q.path?) p.path?
  | resolveText p s ih =>
    rw [segments?, path?, ← ih]
    exact map_bind (map_resolveText? · s) p.path?
  | sibling p q ihp ihq =>
    rw [segments?, path?, ← ihp, ← ihq]
    exact map_bind (fun p => map_bind (map_resolveSibling? p) q.path?) p.path?
  | siblingText p s ih =>
    rw [segments?, path?, ← ih]
    exact map_bind (map_resolveSiblingText? · s) p.path?
  | subpath p first last ih =>
    rw [segments?, path?, ← ih]
    exact map_bind (map_subpath? · first last) p.path?
  | segment p index ih =>
    rw [segments?, path?, ← ih]
    exact map_bind (map_segment? · index) p.path?
  | parent p ih =>
    rw [segments?, path?, ← ih]
    exact map_bind map_parent? p.path?
  | fileName p ih =>
    rw [segments?, path?, ← ih]
    exact map_bind map_fileName? p.path?

end Origin

/-! ## Normal forms -/

/-- However a path comes about, its segments are those of the plain lists, and each of
them is allowed.  The text of a path is read back as the path, so a path is known by its
text.  A text of any kind falls into pieces without separators.  It writes no path when
one of them stands for another place, and the same path as another text when the two
have the same pieces, empty ones left out. -/
theorem text_normal :
    (∀ o : Origin, o.path?.map (·.names) = o.segments? ∧
      ∀ names, o.segments? = some names → ∀ name ∈ names, IsSegment name) ∧
    (∀ p : Path, ofText? p.toText = .ok p) ∧
    (∀ p q : Path, p = q ↔ p.toText = q.toText) ∧
    (∀ text, "/".intercalate (allPieces text) = text ∧
      (∀ part ∈ allPieces text, '/' ∉ part.toList) ∧
      ((∃ fault, ofText? text = .error fault) ↔
        "." ∈ allPieces text ∨ ".." ∈ allPieces text)) ∧
    ∀ text text' p p', ofText? text = .ok p → ofText? text' = .ok p' →
      (p = p' ↔ (allPieces text).filter (· ≠ "") = (allPieces text').filter (· ≠ "")) := by
  refine ⟨fun o => ⟨o.map_path?, fun names h => ?_⟩, ofText?_toText, fun p q => toText_inj.symm,
    fun text => ⟨intercalate_allPieces text, fun _ => not_mem_of_mem_allPieces, ?_⟩,
    fun text text' p p' hp hp' => ?_⟩
  · rw [← o.map_path?] at h
    obtain ⟨p, -, rfl⟩ := Option.map_eq_some_iff.1 h
    exact p.segments
  · rw [Step.exists_error_iff, exists_ofText?_iff, not_and_or, not_not, not_not]
  · rw [← pieces_eq_filter, ← pieces_eq_filter, ← names_of_ofNames? hp, ← names_of_ofNames? hp']
    exact ⟨congrArg names, Path.ext⟩

/-- Separators that are doubled or stand at an end make no difference. -/
theorem text_normal_doubled :
    (∀ name ∈ ["res", "raw", "b", "c"], IsSegment name) ∧
      ∃ p p', ofText? "/res//raw/" = .ok p ∧ ofText? "res/raw" = .ok p' ∧ p = p' := by
  obtain ⟨horigins, -, -, -, hequal⟩ := text_normal
  constructor
  · exact (horigins (.siblingText (.text "/res//raw/a.bin/") "b//c")).2 _ (by decide +kernel)
  · obtain ⟨p, hp⟩ : ∃ p, ofText? "/res//raw/" = .ok p := Step.ok_of_isOk (by decide +kernel)
    obtain ⟨p', hp'⟩ : ∃ p, ofText? "res/raw" = .ok p := Step.ok_of_isOk (by decide +kernel)
    exact ⟨p, p', hp, hp', (hequal _ _ p p' hp hp').2 (by decide +kernel)⟩

end AppBundle.Path
