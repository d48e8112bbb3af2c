import AppBundle.Error
import AppBundle.Ordered.ByKey

/-!
# Paths inside a module

A path is a list of segments.  As text the segments are joined by `/`; read
back, leading, trailing and doubled separators vanish.  The empty path is the
root of the module.

No segment is empty, is `.` or `..`, or holds a separator.  The type carries
that invariant, so every path has one text and `Path.ofText? p.toText` is `p`
again.  `Path.ofNames?` is where segments are checked; all other operations
cut and join segments that were checked before.

Paths are ordered segment by segment, each segment by its code points.
-/

namespace AppBundle

/-- What a segment of a path may be. -/
def IsSegment (name : String) : Prop :=
  name ≠ "" ∧ '/' ∉ name.toList ∧ name ≠ "." ∧ name ≠ ".."

instance (name : String) : Decidable (IsSegment name) :=
  inferInstanceAs (Decidable (_ ∧ _ ∧ _ ∧ _))

/-- A normalized path. -/
structure Path where
  /-- The segments, outermost first. -/
  names : List String
  /-- Every segment is allowed. -/
  segments : ∀ name ∈ names, IsSegment name
deriving DecidableEq

namespace Path

@[ext] theorem ext {p q : Path} (h : p.names = q.names) : p = q := by
  cases p
  cases q
  cases h
  rfl

/-- The empty path. -/
def root : Path := ⟨[], by simp⟩

instance : Inhabited Path := ⟨root⟩

/-- Whether the path is the empty one. -/
def isRoot (p : Path) : Bool := p.names.isEmpty

/-! ## Reading and writing -/

/-- The segments joined by separators. -/
def toText (p : Path) : String := "/".intercalate p.names

instance : ToString Path := ⟨toText⟩

/-- The fault of a segment that is not allowed. -/
def segmentFault (name : String) : ArgumentFault :=
  if name = "" then .emptySegment
  else if '/' ∈ name.toList then .separatorInSegment name
  else .relativeSegment name

/-- The path with these segments.  The first one that is not allowed is the fault. -/
def ofNames? : List String → Except BundleError Path
  | [] => .ok root
  | name :: names =>
    if h : IsSegment name then
      (ofNames? names).map fun p =>
        ⟨name :: p.names, List.forall_mem_cons.2 ⟨h, p.segments⟩⟩
    else .error (.invalidArgument (segmentFault name))

/-- The pieces of a text between separators, empty ones left out. -/
def pieces (text : String) : List String :=
  (text.toList.splitOn '/').filter (· ≠ []) |>.map String.ofList

/-- The path written by a text.  Separators at the ends and doubled ones do not count. -/
def ofText? (text : String) : Except BundleError Path := ofNames? (pieces text)

/-! ## Cutting and joining -/

/-- The path that continues with the segments of another. -/
def resolve (p q : Path) : Path :=
  ⟨p.names ++ q.names, fun name h => (List.mem_append.1 h).elim (p.segments name) (q.segments name)⟩

/-- The segments from `first` up to `last`, the latter left out. -/
def cut (p : Path) (first last : Nat) : Path :=
  ⟨(p.names.take last).drop first,
    fun name h => p.segments name (List.mem_of_mem_take (List.mem_of_mem_drop h))⟩

/-- The segments from `first` up to `last`, the latter left out.  The range must
not be empty and must lie within the path. -/
def subpath? (p : Path) (first last : Nat) : Except BundleError Path :=
  if first < last ∧ last ≤ p.names.length then .ok (p.cut first last)
  else .error (.invalidArgument (.subpathRange first last p.toText p.names.length))

/-- The segment at an index, as a path of its own. -/
def segment? (p : Path) (index : Nat) : Except BundleError Path := p.subpath? index (index + 1)

/-- The path without its last segment; the root has none to lose. -/
def parent? (p : Path) : Option Path :=
  if p.isRoot then none else some (p.cut 0 (p.names.length - 1))

/-- The last segment, as a path of its own. -/
def fileName? (p : Path) : Option Path :=
  if p.isRoot then none else some (p.cut (p.names.length - 1) p.names.length)

/-- The path with its last segment replaced by another path. -/
def resolveSibling? (p q : Path) : Except BundleError Path :=
  match p.parent? with
  | some parent => .ok (parent.resolve q)
  | none => .error (.invalidArgument .rootHasNoSibling)

/-- The path that continues with what a text writes. -/
def resolveText? (p : Path) (text : String) : Except BundleError Path :=
  (ofText? text).map p.resolve

/-- The path with its last segment replaced by what a text writes. -/
def resolveSiblingText? (p : Path) (text : String) : Except BundleError Path :=
  (ofText? text).bind p.resolveSibling?

/-- Whether the path begins with the segments of `q`. -/
def startsWith (p q : Path) : Bool := q.names.isPrefixOf p.names

/-- Whether the path ends with the segments of `q`. -/
def endsWith (p q : Path) : Bool := q.names.isSuffixOf p.names

/-- Whether the path begins with what a text writes; a text that writes no path begins nothing. -/
def startsWithText (p : Path) (text : String) : Bool :=
  match ofText? text with
  | .ok q => p.startsWith q
  | .error _ => false

/-- Whether the path ends with what a text writes; a text that writes no path ends nothing. -/
def endsWithText (p : Path) (text : String) : Bool :=
  match ofText? text with
  | .ok q => p.endsWith q
  | .error _ => false

/-! ## Order -/

instance : LT Path := ⟨fun p q => p.names < q.names⟩

instance : LE Path := ⟨fun p q => ¬ q < p⟩

instance : DecidableLT Path := fun p q => inferInstanceAs (Decidable (p.names < q.names))

theorem ordered_names : ByKey.Ordered Path.names where
  key_inj _ _ := ext
  lt_iff _ _ := Iff.rfl
  le_iff _ _ := Iff.rfl

theorem names_not_lt_trans (x y z : List String) (hxy : ¬ x < y) (hyz : ¬ y < z) : ¬ x < z :=
  @List.le_trans String _ _ _ _ z y x hyz hxy

instance : Std.IsLinearOrder Path :=
  ByKey.isLinearOrder ordered_names (fun _ _ => List.lt_asymm) names_not_lt_trans
    fun _ _ hxy hyx => List.le_antisymm hyx hxy

instance : Std.LawfulOrderLT Path :=
  ByKey.lawfulOrderLT ordered_names fun _ _ => List.lt_asymm

end Path

end AppBundle
