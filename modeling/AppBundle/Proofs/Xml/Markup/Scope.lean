import AppBundle.Proofs.Ordered
import AppBundle.Proofs.Text.Span
import AppBundle.Proofs.Xml.Canonical
import AppBundle.Xml.Markup.Parse

/-!
# Prefixes written and read

Writing a name searches the declarations in force for its namespace, and reading
it searches the scopes for its prefix.  Both go from the innermost element
outwards, and within an element from the last declaration back, so they see one
list of declarations (`Follows.scopesIn`).  But they search it by different keys.
The declaration that the writer finds counts for the reader only if no later one
takes its prefix.

Hence a name is read back as it is exactly when the last declaration of its
namespace is in force and has a prefix to write (`fullName_qualify_iff`).  A
prefix that is declared again (`fullName_qualify_redeclared`) or a default
namespace that is the last one declared loses the namespace of an attribute, even
where another prefix would do.
-/

namespace AppBundle.Xml.Markup

/-! ## Splitting names -/

section Split

variable {pfx name : String}

theorem splitName_of_not_mem (h : ':' ∉ name.toList) : splitName name = (none, name) := by
  simp only [splitName, Text.dropWhile_of_forall (Text.bne_of_not_mem h)]

/-- A name is cut at its first colon. -/
theorem splitName_of_append {front back : List Char} (h : name.toList = front ++ ':' :: back)
    (hfront : ':' ∉ front) : splitName name = (some (.ofList front), .ofList back) := by
  have hall := Text.bne_of_not_mem hfront
  have hstop : (':' != ':') = false := by decide
  simp only [splitName, h, Text.dropWhile_append_cons hall hstop,
    Text.takeWhile_append_cons hall hstop]

theorem toList_prefixed : (pfx ++ ":" ++ name).toList = pfx.toList ++ ':' :: name.toList := by
  simp

theorem splitName_prefixed (h : ':' ∉ pfx.toList) :
    splitName (pfx ++ ":" ++ name) = (some pfx, name) := by
  rw [splitName_of_append toList_prefixed h, String.ofList_toList, String.ofList_toList]

/-- A prefix with a colon is cut there, and the rest of it goes to the name. -/
theorem mem_splitName_prefixed (h : ':' ∈ pfx.toList) :
    ':' ∈ (splitName (pfx ++ ":" ++ name)).2.toList := by
  obtain ⟨front, back, hpfx, hfront⟩ := List.eq_append_cons_of_mem h
  have hlist : (pfx ++ ":" ++ name).toList = front ++ ':' :: (back ++ ':' :: name.toList) := by
    rw [toList_prefixed, hpfx, List.append_assoc, List.cons_append]
  rw [splitName_of_append hlist hfront, String.toList_ofList]
  exact List.mem_append_right _ List.mem_cons_self

end Split

/-! ## Scopes and declarations -/

/-- The scopes have the prefixes of the declarations, of which the last one is the first. -/
def Follows (scopes : List Scope) (declared : List Declaration) : Prop :=
  ∀ pfx, lookup? scopes pfx = (declared.find? (·.pfx == pfx)).map (·.uri)

/-- The scope that the declarations of an element form. -/
def Scope.ofDeclarations (ds : List Declaration) : Scope :=
  OrderedMap.ofList (ds.map fun d => (d.pfx, d.uri))

/-- The declarations in force inside nested elements, the last one first.  The
innermost element is given first. -/
def declaredIn (nested : List (List Declaration)) : List Declaration :=
  nested.flatMap List.reverse

/-- The scopes of nested elements.  The outermost one declares nothing. -/
def scopesIn (nested : List (List Declaration)) : List Scope :=
  nested.map Scope.ofDeclarations ++ [∅]

theorem lookup_declarations (ds : List Declaration) (pfx : String) :
    (ds.map fun d => (d.pfx, d.uri)).lookup pfx = (ds.find? (·.pfx == pfx)).map (·.uri) := by
  induction ds with
  | nil => rfl
  | cons d ds ih =>
    rw [List.map_cons, List.lookup_cons, List.find?_cons, BEq.comm]
    cases d.pfx == pfx with
    | true => rfl
    | false => exact ih

theorem Scope.get?_ofDeclarations (ds : List Declaration) (pfx : String) :
    (Scope.ofDeclarations ds).get? pfx =
      (ds.reverse.find? (·.pfx == pfx)).map (·.uri) := by
  rw [Scope.ofDeclarations, OrderedMap.get?_ofList, ← List.map_reverse, lookup_declarations]

namespace Follows

theorem outermost : Follows [∅] [] := fun _ => rfl

/-- The scope of an element goes with its declarations. -/
theorem cons {scopes : List Scope} {declared : List Declaration} (h : Follows scopes declared)
    (ds : List Declaration) :
    Follows (Scope.ofDeclarations ds :: scopes) (ds.reverse ++ declared) := by
  intro pfx
  rw [lookup?, List.findSome?_cons, Scope.get?_ofDeclarations, List.find?_append]
  cases ds.reverse.find? (·.pfx == pfx) with
  | none => exact h pfx
  | some d => rfl

theorem scopesIn (nested : List (List Declaration)) :
    Follows (scopesIn nested) (declaredIn nested) := by
  induction nested with
  | nil => exact outermost
  | cons ds nested ih => exact ih.cons ds

end Follows

/-! ## Names of attributes -/

section Names

variable (scopes : List Scope) {pfx name : String} (value : String)

theorem fullName_attributeOf (key : String) :
    (attributeOf scopes key value).fullName =
      (((splitName key).1.bind (lookup? scopes)).getD "", (splitName key).2) := by
  unfold attributeOf
  obtain ⟨pfx, name⟩ := splitName key
  dsimp only
  split <;> rfl

/-- An attribute without a prefix is in no namespace. -/
theorem fullName_attributeOf_bare (h : ':' ∉ name.toList) :
    (attributeOf scopes name value).fullName = ("", name) := by
  rw [fullName_attributeOf, splitName_of_not_mem h]
  rfl

/-- An attribute with a prefix is in the namespace that the prefix stands for. -/
theorem fullName_attributeOf_prefixed (h : ':' ∉ pfx.toList) :
    (attributeOf scopes (pfx ++ ":" ++ name) value).fullName =
      ((lookup? scopes pfx).getD "", name) := by
  rw [fullName_attributeOf, splitName_prefixed h]
  rfl

/-- An attribute with a prefix is read in a namespace when the prefix stands for it
and has no colon, at which it would be cut. -/
theorem fullName_attributeOf_prefixed_iff {uri : String} (huri : uri ≠ "")
    (hname : ':' ∉ name.toList) :
    (attributeOf scopes (pfx ++ ":" ++ name) value).fullName = (uri, name) ↔
      ':' ∉ pfx.toList ∧ lookup? scopes pfx = some uri := by
  by_cases hcolon : ':' ∈ pfx.toList
  · -- The name that is read has a colon, and the one that was written has none.
    have hread := @mem_splitName_prefixed _ name hcolon
    rw [fullName_attributeOf, Prod.mk.injEq]
    constructor
    · rintro ⟨-, heq⟩
      exact absurd (heq ▸ hread) hname
    · rintro ⟨hnot, -⟩
      exact absurd hcolon hnot
  · rw [fullName_attributeOf_prefixed scopes value hcolon, Prod.mk.injEq]
    cases lookup? scopes pfx with
    | none => simp [huri.symm]
    | some found => simp [hcolon]

end Names

/-- An attribute inside nested elements is read with the name that it was written
with exactly when the last declaration of its namespace has a prefix that can be
written and is in force. -/
theorem fullName_qualify_iff (nested : List (List Declaration)) {uri name : String}
    (huri : uri ≠ "") (hname : ':' ∉ name.toList) (value : String) :
    (attributeOf (scopesIn nested) (qualify (declaredIn nested) uri name) value).fullName =
        (uri, name) ↔
      ∃ d, (declaredIn nested).find? (·.uri == uri) = some d ∧ d.pfx ≠ "" ∧
        ':' ∉ d.pfx.toList ∧ lookup? (scopesIn nested) d.pfx = some uri := by
  have hbare := fullName_attributeOf_bare (scopesIn nested) value hname
  have hlost : ("", name) ≠ (uri, name) := fun heq => huri (Prod.mk.inj heq).1.symm
  rw [qualify, if_neg huri]
  cases (declaredIn nested).find? (·.uri == uri) with
  | none => simp [hbare, hlost]
  | some d =>
    simp only [Option.some.injEq, exists_eq_left']
    by_cases hpfx : d.pfx = ""
    · simp [hbare, hlost, hpfx]
    · rw [if_neg hpfx, fullName_attributeOf_prefixed_iff _ _ huri hname]
      simp [hpfx]

/-- An inner element takes the later one of two prefixes away from a namespace. -/
def redeclared : List (List Declaration) := [[⟨"b", "v"⟩], [⟨"a", "u"⟩, ⟨"b", "u"⟩]]

theorem fullName_qualify_iff_outer :
    ("u" ≠ "" ∧ ':' ∉ "name".toList) ∧ ∀ value,
      (attributeOf (scopesIn redeclared.tail) (qualify (declaredIn redeclared.tail) "u" "name")
        value).fullName = ("u", "name") :=
  ⟨by decide, fun value =>
    (fullName_qualify_iff redeclared.tail (by decide) (by decide) value).2
      ⟨⟨"b", "u"⟩, by decide, by decide, by decide, by decide⟩⟩

/-- The prefix that is left would do, but the one that was taken is written. -/
theorem fullName_qualify_redeclared :
    lookup? (scopesIn redeclared) "a" = some "u" ∧
      (attributeOf (scopesIn redeclared) (qualify (declaredIn redeclared) "u" "name")
        "").fullName = ("v", "name") := by
  decide

end AppBundle.Xml.Markup
