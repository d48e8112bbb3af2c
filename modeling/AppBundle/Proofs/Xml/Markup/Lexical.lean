import AppBundle.Proofs.Xml.Markup.Scope
import AppBundle.Proofs.Xml.Markup.Source
import Mathlib.Data.List.Forall2

/-!
# Prefixes stand for what is declared around them

`StandsFor` says what a prefix means among start tags: the nearest of them that
declares it decides, and if none does the prefix stands for no namespace.
`StartTag.Names` says that an element and its attributes are named in this way by a
start tag, those around it being the ones that are open there and no others.

The scopes of the reader are searched for just that (`standsFor_iff`).  As its
scopes are always those of the start tags around a name, the elements of a document
are named by its start tags one by one (`names_of_parse`), and its stacks are in
step all along (`parse_lexical`).
-/

namespace AppBundle.Xml.Markup

/-! ## What a prefix stands for -/

/-- The last declaration of a prefix among these attributes is that of a namespace. -/
def Declares (pairs : Pairs) (pfx uri : String) : Prop :=
  ∃ before key after, pairs = before ++ (key, uri) :: after ∧ declaredPrefix? key = some pfx ∧
    ∀ pair ∈ after, declaredPrefix? pair.1 ≠ some pfx

/-- What a prefix stands for among start tags, the innermost one first. -/
inductive StandsFor (pfx : String) : List Pairs → String → Prop where
  /-- The nearest start tag declares it. -/
  | declared {pairs : Pairs} {outer : List Pairs} {uri : String}
    (h : Declares pairs pfx uri) : StandsFor pfx (pairs :: outer) uri
  /-- The nearest start tag does not declare it, and those around it decide. -/
  | further {pairs : Pairs} {outer : List Pairs} {uri : String}
    (hsilent : ∀ pair ∈ pairs, declaredPrefix? pair.1 ≠ some pfx)
    (h : StandsFor pfx outer uri) : StandsFor pfx (pairs :: outer) uri
  /-- No start tag declares it. -/
  | undeclared : StandsFor pfx [] ""

/-- The namespace of an attribute with this prefix, if it has one. -/
def AttributeIn (around : List Pairs) (uri : String) : Option String → Prop
  | none => uri = ""
  | some pfx => StandsFor pfx around uri

/-- An element is named by a start tag, and so are its attributes. -/
structure StartTag.Names (t : StartTag) (e : Element) : Prop where
  /-- The name is what follows the prefix. -/
  name_eq : e.name = (splitName t.key).2
  /-- The namespace is what the prefix stands for, the empty one if there is none. -/
  namespaceUri : StandsFor ((splitName t.key).1.getD "") t.around e.namespaceUri
  /-- The attributes have the names of those that declare nothing, and no others. -/
  attribute_iff : ∀ uri name, (∃ a ∈ e.attributes, a.fullName = (uri, name)) ↔
    ∃ pair ∈ t.own, declaredPrefix? pair.1 = none ∧ (splitName pair.1).2 = name ∧
      AttributeIn t.around uri (splitName pair.1).1

/-! ## Scopes -/

/-- The scope of a start tag has the last declaration of each prefix. -/
theorem get?_scopeOf (pairs : Pairs) (pfx : String) :
    (scopeOf pairs).get? pfx = pairs.reverse.findSome? fun pair =>
      if declaredPrefix? pair.1 = some pfx then some pair.2 else none := by
  rw [scopeOf, OrderedMap.get?_ofList, ← List.filterMap_reverse]
  induction pairs.reverse with
  | nil => rfl
  | cons pair pairs ih =>
    rw [List.findSome?_cons, List.filterMap_cons]
    cases hpfx : declaredPrefix? pair.1 with
    | none => simpa [hpfx] using ih
    | some found =>
      by_cases hfound : pfx = found
      · simp [hpfx, hfound]
      · have hskip := OrderedMap.lookup_cons_of_ne (b := (found, pair.2)) hfound
        simpa [hpfx, Ne.symm hfound, hskip] using ih

theorem get?_scopeOf_eq_some_iff {pairs : Pairs} {pfx uri : String} :
    (scopeOf pairs).get? pfx = some uri ↔ Declares pairs pfx uri := by
  rw [get?_scopeOf, List.findSome?_eq_some_iff]
  constructor
  · rintro ⟨after, ⟨key, value⟩, before, hpairs, hpair, hafter⟩
    simp only [Option.ite_none_right_eq_some, Option.some.injEq] at hpair
    obtain ⟨hkey, rfl⟩ := hpair
    refine ⟨before.reverse, key, after.reverse, ?_, hkey, fun pair hmem => ?_⟩
    · simpa using congrArg List.reverse hpairs
    · simpa using hafter pair (List.mem_reverse.1 hmem)
  · rintro ⟨before, key, after, rfl, hkey, hafter⟩
    refine ⟨after.reverse, (key, uri), before.reverse, by simp, by simp [hkey], fun pair hmem => ?_⟩
    simpa using hafter pair (List.mem_reverse.1 hmem)

theorem get?_scopeOf_eq_none_iff {pairs : Pairs} {pfx : String} :
    (scopeOf pairs).get? pfx = none ↔ ∀ pair ∈ pairs, declaredPrefix? pair.1 ≠ some pfx := by
  simp [get?_scopeOf]

/-- The search through the scopes finds what the prefix stands for. -/
theorem standsFor_iff {around : List Pairs} {pfx uri : String} :
    StandsFor pfx around uri ↔ (lookup? (scopesOf around) pfx).getD "" = uri := by
  induction around with
  | nil =>
    constructor
    · rintro ⟨⟩
      rfl
    · rintro rfl
      exact .undeclared
  | cons pairs outer ih =>
    have hlookup : lookup? (scopesOf (pairs :: outer)) pfx =
        ((scopeOf pairs).get? pfx).or (lookup? (scopesOf outer) pfx) := by
      rw [scopesOf, List.map_cons, List.cons_append, lookup?, List.findSome?_cons]
      cases (scopeOf pairs).get? pfx <;> rfl
    rw [hlookup]
    constructor
    · intro h
      cases h with
      | declared h => rw [get?_scopeOf_eq_some_iff.2 h, Option.some_or, Option.getD_some]
      | further hsilent h => rw [get?_scopeOf_eq_none_iff.2 hsilent, Option.none_or, ih.1 h]
    · intro h
      cases hown : (scopeOf pairs).get? pfx with
      | none =>
        rw [hown, Option.none_or] at h
        exact .further (get?_scopeOf_eq_none_iff.1 hown) (ih.2 h)
      | some found =>
        rw [hown, Option.some_or, Option.getD_some] at h
        subst h
        exact .declared (get?_scopeOf_eq_some_iff.1 hown)

/-! ## Names of elements and attributes -/

/-- An element with an attribute more has the name of that attribute as well. -/
theorem mem_fullNames_insert {e : Element} {a : Attribute} {x : String × String} :
    x ∈ (e.insert a).attributes.map (·.fullName) ↔
      x ∈ e.attributes.map (·.fullName) ∨ x = a.fullName := by
  cases hfind : e.attributes.find? (·.isNamed a.namespaceUri a.name) with
  | none =>
    rw [Element.insert, FirstMatch.modifyOrPush_of_find?_none hfind]
    simp
  | some b =>
    have hnamed := List.find?_some hfind
    rw [Attribute.isNamed_iff] at hnamed
    have hmem : a.fullName ∈ e.attributes.map (·.fullName) :=
      List.mem_map.2 ⟨b, List.mem_of_find?_eq_some hfind, hnamed⟩
    have hkept := FirstMatch.map_modify (f := fun _ => a) (g := Attribute.fullName)
      (fun b hb => (Attribute.isNamed_iff.1 hb).symm) e.attributes
    rw [Element.insert, FirstMatch.modifyOrPush_of_find?_some hfind, hkept]
    constructor
    · exact .inl
    · rintro (h | rfl)
      · exact h
      · exact hmem

/-- What the attributes of a tag make of an element leaves its name as it is. -/
theorem foldl_insert_attributeOf (scopes : List Scope) (pairs : Pairs) (e : Element) :
    let e' := pairs.foldl (fun e pair => e.insert (attributeOf scopes pair.1 pair.2)) e
    e'.name = e.name ∧ e'.namespaceUri = e.namespaceUri ∧
      ∀ x, x ∈ e'.attributes.map (·.fullName) ↔ x ∈ e.attributes.map (·.fullName) ∨
        ∃ pair ∈ pairs, x = (attributeOf scopes pair.1 pair.2).fullName := by
  induction pairs generalizing e with
  | nil => simp
  | cons pair pairs ih =>
    obtain ⟨hname, huri, hnames⟩ := ih (e.insert (attributeOf scopes pair.1 pair.2))
    refine ⟨hname, huri, fun x => ?_⟩
    rw [List.foldl_cons, hnames, mem_fullNames_insert]
    simp [or_assoc]

/-- Declarations leave everything else of an element as it is. -/
theorem foldl_declare_eq (ds : List (String × String)) (e : Element) :
    ∃ declarations, ds.foldl (fun e (pfx, uri) => e.declare ⟨pfx, uri⟩) e =
      { e with declarations } := by
  induction ds generalizing e with
  | nil => exact ⟨e.declarations, rfl⟩
  | cons d ds ih =>
    obtain ⟨declarations, h⟩ := ih (e.declare ⟨d.1, d.2⟩)
    refine ⟨declarations, h.trans ?_⟩
    rw [Element.declare_eq]

/-- The name of an element and those of its attributes, as the scopes around them give them. -/
theorem fullNames_elementOf (own : Scope) (scopes : List Scope) (key : String) (pairs : Pairs) :
    let e := elementOf own scopes key pairs
    e.name = (splitName key).2 ∧
      e.namespaceUri = (lookup? scopes ((splitName key).1.getD "")).getD "" ∧
        ∀ x, x ∈ e.attributes.map (·.fullName) ↔ ∃ pair ∈ pairs, declaredPrefix? pair.1 = none ∧
          x = (attributeOf scopes pair.1 pair.2).fullName := by
  obtain ⟨declarations, hdeclared⟩ := foldl_declare_eq own.toList
    { namespaceUri := (lookup? scopes ((splitName key).1.getD "")).getD ""
      name := (splitName key).2 }
  have hinserted := foldl_insert_attributeOf scopes
    (pairs.filter fun pair => (declaredPrefix? pair.1).isNone)
    { namespaceUri := (lookup? scopes ((splitName key).1.getD "")).getD ""
      name := (splitName key).2
      declarations }
  simp only [elementOf, hdeclared]
  simpa [and_assoc] using hinserted

/-- A start tag names the element that it is read as, whatever its children. -/
theorem StartTag.names_read (t : StartTag) (children : List Node) :
    t.Names ⟨t.read, children⟩ := by
  obtain ⟨hname, huri, hnames⟩ :=
    fullNames_elementOf (scopeOf t.own) (scopesOf t.around) t.key t.own
  refine ⟨hname, standsFor_iff.2 huri.symm, fun uri name => ?_⟩
  have hattribute : ∀ pair : String × String,
      (uri, name) = (attributeOf (scopesOf t.around) pair.1 pair.2).fullName ↔
        (splitName pair.1).2 = name ∧ AttributeIn t.around uri (splitName pair.1).1 := by
    intro pair
    rw [fullName_attributeOf, Prod.mk.injEq, and_comm, eq_comm (a := name)]
    refine and_congr_right fun _ => ?_
    cases (splitName pair.1).1 with
    | none => rfl
    | some pfx => exact eq_comm.trans standsFor_iff.symm
  have hnamed := hnames (uri, name)
  simp only [hattribute] at hnamed
  exact List.mem_map.symm.trans hnamed

mutual

/-- The start tags of a tree name the elements that it makes. -/
theorem names_nodes : ∀ (around : List Pairs) (s : Source),
    List.Forall₂ StartTag.Names (s.tags around) (Node.elementsAll (s.nodes around))
  | around, .empty key pairs => .cons (StartTag.names_read ⟨key, pairs, around⟩ []) .nil
  | around, .element key pairs children => by
    rw [Source.tags, Source.nodes, Node.elementsAll_eq_flatMap, List.flatMap_singleton,
      Node.elements]
    exact .cons (StartTag.names_read ⟨key, pairs, around⟩ _)
      (names_nodesAll (pairs :: around) children)
  | around, .text run => by
    rw [Source.tags, Source.nodes]
    split <;> exact .nil
  | around, .verbatim run => .nil

theorem names_nodesAll : ∀ (around : List Pairs) (ss : List Source),
    List.Forall₂ StartTag.Names (Source.tagsAll around ss)
      (Node.elementsAll (Source.nodesAll around ss))
  | around, [] => .nil
  | around, s :: ss => by
    have hfirst := names_nodes around s
    have hrest := names_nodesAll around ss
    rw [Node.elementsAll_eq_flatMap] at hfirst hrest
    rw [Source.tagsAll, Source.nodesAll, Node.elementsAll_eq_flatMap, List.flatMap_append]
    exact List.rel_append hfirst hrest

end

/-! ## Documents -/

/-- The elements of a text that is read are named by its start tags. -/
theorem names_of_parse {text : String} {n : Node} (h : parse text = .ok n)
    {sources : List Source} (hsources : tokens text = (Source.tokensAll sources).map .ok) :
    List.Forall₂ StartTag.Names (Source.tagsAll [] sources) n.elements := by
  obtain ⟨e, hone, rfl⟩ := filterMap_nodesAll_of_parse h hsources
  have hnames := names_nodesAll [] sources
  rw [Node.elementsAll_eq_filterMap, hone] at hnames
  simpa using hnames

/-- The stacks of the reader are in step before each token, so it never finds one of
them empty.  A text that is read is a row of trees of tags, and each element and each
attribute has the namespace that the nearest start tag around it declares for its
prefix. -/
theorem parse_lexical (text : String) :
    (∀ done rest b, tokens text = done ++ rest → build {} done = .ok b →
      b.scopes.length = b.opened.length + 1) ∧
    (∀ e, parse text = .error e → e ≠ .scopeUnderflow ∧ e ≠ .unbalancedTag) ∧
    ∀ n, parse text = .ok n →
      (∃ sources, tokens text = (Source.tokensAll sources).map .ok) ∧
      ∀ sources, tokens text = (Source.tokensAll sources).map .ok →
        List.Forall₂ StartTag.Names (Source.tagsAll [] sources) n.elements := by
  refine ⟨fun done rest b _ hbuild => ?_, fun e h => ?_, fun n h => ?_⟩
  · obtain ⟨ts, depth, -, -, hb⟩ := Builder.At.initial.of_build hbuild
    rw [hb.scopes, hb.opened]
  · rcases error_of_parse h with rfl | rfl | rfl | rfl <;> decide
  · exact ⟨exists_sources_of_parse h, fun _ => names_of_parse h⟩

/-- An earlier element declares the prefix anew, and nothing declares the other one. -/
def siblingText : String := "<a xmlns:p='u'><b xmlns:p='v'/><p:c q:d=''/></a>"

/-- What it consists of. -/
def siblingSources : List Source :=
  [.element "a" [("xmlns:p", "u")] [.empty "b" [("xmlns:p", "v")], .empty "p:c" [("q:d", "")]]]

theorem parse_lexical_siblingText :
    (∃ done rest b, tokens siblingText = done ++ rest ∧ build {} done = .ok b ∧
      b.opened.length = 1 ∧ b.scopes.length = 2) ∧
    ∃ n, parse siblingText = .ok n ∧ n.elements.map (·.namespaceUri) = ["", "", "u"] ∧
      List.Forall₂ StartTag.Names (Source.tagsAll [] siblingSources) n.elements := by
  have htokens : tokens siblingText = (Source.tokensAll siblingSources).map .ok := by
    decide +kernel
  obtain ⟨hsteps, -, hnames⟩ := parse_lexical siblingText
  constructor
  · obtain ⟨b, hbuild, hopened⟩ : ∃ b, build {} ((tokens siblingText).take 2) = .ok b ∧
        decide (b.opened.length = 1) := Step.ok_of_any (by decide +kernel)
    replace hopened := of_decide_eq_true hopened
    have hsplit := (List.take_append_drop 2 (tokens siblingText)).symm
    have hscopes := hsteps _ _ b hsplit hbuild
    rw [hopened] at hscopes
    exact ⟨_, _, b, hsplit, hbuild, hopened, hscopes⟩
  · obtain ⟨n, hn, huris⟩ : ∃ n, parse siblingText = .ok n ∧
        decide (n.elements.map (·.namespaceUri) = ["", "", "u"]) :=
      Step.ok_of_any (by decide +kernel)
    exact ⟨n, hn, of_decide_eq_true huris, (hnames n hn).2 siblingSources htokens⟩

end AppBundle.Xml.Markup
