import AppBundle.Proofs.Xml.Markup.Nesting
import AppBundle.Proofs.Xml.Markup.Parsed
import AppBundle.Proofs.Xml.Markup.Written

/-!
# Written text documents are read back

The writer goes down a tree, and the reader keeps a stack of open elements and
one of scopes.  Between them stand the tokens.  Each of the tokens that a simply
scoped tree is written as does what the reader should do there:

* an attribute is read back from its key and its value (`attributeOf_qualify`),
  and so is a whole start tag (`elementOf_tagPairs`);
* the tokens of a node put the node behind what is there already
  (`build_nodeTokens`), whatever tokens come after them.

The scopes of the reader follow the declarations of the writer all along
(`Builder.Among`).  Since the tokens are read back from the text, so is the tree
(`parse_write`).
-/

namespace AppBundle.Xml.Markup

/-! ## Attributes -/

section Attributes

variable {a : Attribute}

/-- The text of a legible value is compiled to the value. -/
theorem compile?_valueText (h : a.IsLegible) :
    compile? a.namespaceUri a.name (valueText a) = a.item := by
  cases hitem : a.item with
  | none =>
    have hvalue : valueText a = a.raw := by rw [valueText, hitem]
    rw [hvalue, compile?, Option.filter_eq_none_iff]
    intro item hliteral
    obtain ⟨hkeeps, hreference⟩ := h.text hitem item hliteral
    simp [hkeeps, hreference]
  | some item =>
    obtain ⟨-, hlegible⟩ := h.compiled item hitem
    obtain ⟨hliteral, hkept⟩ := hlegible.kept
    rw [compile?, ofLiteral?_valueText hitem hliteral, Option.filter_some,
      if_pos (by simpa using hkept)]

variable {declared : List Declaration} {scopes : List Scope}

/-- A written attribute is read back. -/
theorem attributeOf_qualify (hfollows : Follows scopes declared)
    (hdeclared : Declaration.Unambiguous declared) (h : a.SimplyScoped declared) :
    attributeOf scopes (qualify declared a.namespaceUri a.name) (valueText a) = a := by
  obtain ⟨pfx, hsplit, huri, -⟩ := splitName_qualify hfollows hdeclared h.inScope h.name_plain
  have hid := h.resourceId_eq
  have hcompiled := compile?_valueText h.legible
  simp only [attributeOf, hsplit, huri, ← hid, hcompiled]
  cases hitem : a.item with
  | none =>
    have hvalue : valueText a = a.raw := by rw [valueText, hitem]
    rw [hvalue]
    cases a
    cases hitem
    rfl
  | some item =>
    obtain ⟨hraw, -⟩ := h.legible.compiled item hitem
    cases a
    cases hitem
    cases hraw
    rfl

end Attributes

/-! ## Start tags -/

section Tags

variable {around : List Declaration} {tag : Tag} {scopes : List Scope}

theorem declaredPrefix?_declarationPair (d : Declaration) :
    declaredPrefix? (declarationPair d).1 = some d.pfx :=
  declaredPrefix?_declarationKey d

/-- The attributes of a start tag, among the pairs that it is written as, declare nothing. -/
theorem declaredPrefix?_attributePair (h : tag.SimplyScoped around) {a : Attribute}
    (ha : a ∈ tag.attributes) :
    declaredPrefix? (attributePair (inForce around tag) a).1 = none :=
  declaredPrefix?_qualify h.unambiguous (h.attributes a ha).inScope (h.attributes a ha).name_plain
    (h.attributes a ha).name_ne

/-- The pairs that declare something form the scope. -/
theorem scopeOf_tagPairs (h : tag.SimplyScoped around) :
    scopeOf (tagPairs (inForce around tag) tag) = Scope.ofDeclarations tag.declarations := by
  let declare? (p : String × String) : Option (String × String) :=
    (declaredPrefix? p.1).map fun pfx => (pfx, p.2)
  have hattributes : (tag.attributes.map (attributePair (inForce around tag))).filterMap declare? =
      [] := by
    rw [List.filterMap_eq_nil_iff, List.forall_mem_map]
    intro a ha
    simp only [declare?, declaredPrefix?_attributePair h ha, Option.map_none]
  have hdeclarations : (tag.declarations.map declarationPair).filterMap declare? =
      tag.declarations.map fun d => (d.pfx, d.uri) := by
    rw [List.filterMap_map, ← List.filterMap_eq_map]
    refine congrArg (List.filterMap · tag.declarations) (funext fun d => ?_)
    simp only [declare?, Function.comp_apply, declaredPrefix?_declarationPair, Option.map_some]
    rfl
  show OrderedMap.ofList ((tagPairs (inForce around tag) tag).filterMap declare?) = _
  rw [tagPairs, List.filterMap_append, hattributes, hdeclarations, List.append_nil,
    Scope.ofDeclarations]

/-- The pairs that declare nothing are those of the attributes. -/
theorem filter_tagPairs (h : tag.SimplyScoped around) :
    (tagPairs (inForce around tag) tag).filter (fun p => (declaredPrefix? p.1).isNone) =
      tag.attributes.map (attributePair (inForce around tag)) := by
  have hdeclarations : (tag.declarations.map declarationPair).filter
      (fun p => (declaredPrefix? p.1).isNone) = [] := by
    rw [List.filter_eq_nil_iff, List.forall_mem_map]
    intro d _
    rw [declaredPrefix?_declarationPair]
    exact nofun
  rw [tagPairs, List.filter_append, hdeclarations, List.nil_append, List.filter_eq_self,
    List.forall_mem_map]
  intro a ha
  rw [declaredPrefix?_attributePair h ha]
  rfl

theorem Scope.toList_ofDeclarations {ds : List Declaration} (h : ds.Pairwise (·.pfx < ·.pfx)) :
    (Scope.ofDeclarations ds).toList = ds.map fun d => (d.pfx, d.uri) :=
  OrderedMap.toList_ofList (List.pairwise_map.2 h)

/-- Declarations in the order of their prefixes are all different. -/
theorem nodup_of_ascending {ds : List Declaration} (h : ds.Pairwise (·.pfx < ·.pfx)) :
    ds.Nodup := by
  refine h.imp fun hlt heq => ?_
  subst heq
  exact Std.lt_irrefl hlt

/-- A written start tag is read back. -/
theorem elementOf_tagPairs (hfollows : Follows scopes around) (h : tag.SimplyScoped around) :
    elementOf (Scope.ofDeclarations tag.declarations)
        (Scope.ofDeclarations tag.declarations :: scopes) (tagKey (inForce around tag) tag)
        (tagPairs (inForce around tag) tag) = ⟨tag, []⟩ := by
  have hown : Follows (Scope.ofDeclarations tag.declarations :: scopes) (inForce around tag) :=
    hfollows.cons tag.declarations
  obtain ⟨pfx, hsplit, -, huri⟩ := splitName_qualify hown h.unambiguous h.inScope h.name_plain
  have hattributes : tag.attributes.map (fun a =>
      attributeOf (Scope.ofDeclarations tag.declarations :: scopes)
        (attributePair (inForce around tag) a).1 (attributePair (inForce around tag) a).2) =
      tag.attributes :=
    (List.map_congr_left fun a ha =>
      attributeOf_qualify hown h.unambiguous (h.attributes a ha)).trans (List.map_id' _)
  calc
    elementOf _ _ _ _ =
        (tag.attributes.map fun a =>
          attributeOf (Scope.ofDeclarations tag.declarations :: scopes)
            (attributePair (inForce around tag) a).1
            (attributePair (inForce around tag) a).2).foldl Element.insert
          (tag.declarations.foldl Element.declare
            { namespaceUri := tag.namespaceUri, name := tag.name }) := by
      simp only [elementOf, tagKey, hsplit, huri, filter_tagPairs h, List.foldl_map,
        Scope.toList_ofDeclarations h.ascending]
    _ = tag.attributes.foldl Element.insert
          { namespaceUri := tag.namespaceUri, name := tag.name
            declarations := tag.declarations } := by
      rw [hattributes]
      exact congrArg (tag.attributes.foldl Element.insert)
        (Element.foldl_declare (nodup_of_ascending h.ascending))
    _ = ⟨tag, []⟩ := Element.foldl_insert h.names_nodup

end Tags

/-! ## Trees -/

namespace Builder

/-- The scopes of the builder are those of the declarations in force. -/
structure Among (around : List Declaration) (b : Builder) : Prop where
  /-- The prefixes are those of the declarations. -/
  follows : Follows b.scopes around
  /-- The outermost scope is there. -/
  scopes_ne : b.scopes ≠ []

variable {around : List Declaration} {tag : Tag} {b : Builder}

theorem Among.initial : Among [] {} := ⟨Follows.outermost, nofun⟩

theorem Among.within (h : Among around b) (tag : Tag) (children : List Node) :
    Among (inForce around tag) (b.within (Scope.ofDeclarations tag.declarations) tag children) :=
  ⟨h.follows.cons tag.declarations, nofun⟩

theorem step_start (h : tag.SimplyScoped around) (hb : Among around b) (isEmpty : Bool) :
    b.step (.start (tagKey (inForce around tag) tag) (tagPairs (inForce around tag) tag) isEmpty) =
      if isEmpty then b.attach ⟨tag, []⟩
      else .ok (b.within (Scope.ofDeclarations tag.declarations) tag []) := by
  simp only [step, scopeOf_tagPairs h, elementOf_tagPairs hb.follows h]
  rfl

end Builder

mutual

/-- The tokens of a tree build the tree. -/
theorem build_nodeTokens : ∀ {around : List Declaration} {n : Node}, n.SimplyScoped around →
    ∀ {b : Builder}, b.Among around →
      ∀ rest, build b ((nodeTokens around n).map .ok ++ rest) =
        b.add n >>= fun b' => build b' rest
  | around, .text s, h, b, _, rest => by
    have hstep : b.step (.text s) = .ok (b.addText s) := by
      simp only [Builder.step, h.2, if_neg h.1]
    show build b (.ok (.text s) :: rest) = _
    rw [build_cons, hstep]
    rfl
  | around, .element tag [], h, b, hb, rest => by
    have hstep := Builder.step_start h.1 hb true
    show build b (.ok (.start _ _ true) :: rest) = _
    rw [build_cons, hstep]
    rfl
  | around, .element tag (child :: children), h, b, hb, rest => by
    have hstep := Builder.step_start h.1 hb false
    have hchildren := build_nodesTokens h.2 hb [] (.ok .finish :: rest)
    rw [nodeTokens, List.map_cons, List.cons_append, List.map_append, List.append_assoc]
    show build b (.ok (.start _ _ false) :: _) = _
    rw [build_cons, hstep]
    show build (b.within _ tag []) _ = _
    refine hchildren.trans ?_
    rw [build_cons, Builder.step_finish hb.scopes_ne]
    rfl

/-- The tokens of trees in a row build them inside of the element around them. -/
theorem build_nodesTokens : ∀ {around : List Declaration} {tag : Tag} {ns : List Node},
    Node.SimplyScopedAll (inForce around tag) ns →
    ∀ {b : Builder}, b.Among around →
      ∀ (children : List Node) (rest : List (Except CodecError Token)),
        build (b.within (Scope.ofDeclarations tag.declarations) tag children)
            ((nodesTokens (inForce around tag) ns).map .ok ++ rest) =
          build (b.within (Scope.ofDeclarations tag.declarations) tag (children ++ ns)) rest
  | around, tag, [], _, b, _, children, rest => by
    rw [List.append_nil]
    rfl
  | around, tag, n :: ns, h, b, hb, children, rest => by
    obtain ⟨hn, -, hns⟩ := h
    rw [nodesTokens, List.map_append, List.append_assoc,
      build_nodeTokens hn (hb.within tag children), Builder.add_within]
    show build _ _ = _
    rw [build_nodesTokens hns hb, List.append_assoc, List.singleton_append]

end

/-! ## Documents -/

/-- A document starts with a bracket and not with a byte order mark. -/
theorem tokens_preamble (text : String) : tokens (preamble ++ text) = scan [] text.toList := by
  have hlist : ∃ cs, (preamble ++ text).toList = '<' :: cs := by
    rw [String.toList_append]
    exact ⟨_, rfl⟩
  obtain ⟨cs, hcs⟩ := hlist
  have hscan : tokens (preamble ++ text) = scan [] (preamble ++ text).toList := by
    rw [tokens, hcs]
    rfl
  rw [hscan, String.toList_append, scan_preamble]

/-- A simply scoped tree can be written, and what is written is read back as the tree. -/
theorem parse_write {e : Element} (h : e.toNode.SimplyScoped []) :
    ∃ text, write e.toNode = .ok text ∧ parse text = .ok e.toNode := by
  refine ⟨preamble ++ nodeText [] e.toNode, rfl, ?_⟩
  have hscan := scan_nodeText [] h [] nofun
  have hbuild := build_nodeTokens h Builder.Among.initial []
  rw [List.append_nil, scan_nil] at hscan
  rw [← hscan] at hbuild
  rw [parse, tokens_preamble, hbuild]
  rfl

/-- A manifest with prefixes at two depths, values of every kind, and text that needs
names for its characters. -/
def scopedManifest : Element where
  name := "manifest"
  declarations := [⟨"android", androidUri⟩, ⟨"dist", distributionUri⟩]
  attributes := [
    { name := "package", raw := "<com.\"a\" & 'b'>" },
    { namespaceUri := androidUri, name := "versionCode", resourceId := some Platform.versionCodeId,
      item := some (.decimal (-3)) },
    { namespaceUri := androidUri, name := "versionName", resourceId := some Platform.versionNameId,
      raw := "1" }]
  children := [
    .text "a < b &amp; c",
    .element
      { namespaceUri := distributionUri, name := "module"
        declarations := [⟨"x", "urn:x"⟩]
        attributes := [
          { namespaceUri := "urn:x", name := "name", item := some (.boolean true) },
          { name := "name", item := some (.reference 0x7f010000 none) },
          { namespaceUri := "urn:x", name := "mask", item := some (.hex 0xff) }] }
      [.element { namespaceUri := "urn:x", name := "xmlns" } []],
    .text "\u00e9"]

theorem parse_write_scopedManifest :
    scopedManifest.toNode.SimplyScoped [] ∧
      ∃ text, write scopedManifest.toNode = .ok text ∧ parse text = .ok scopedManifest.toNode :=
  have h : scopedManifest.toNode.SimplyScoped [] := by decide +kernel
  ⟨h, parse_write h⟩

end AppBundle.Xml.Markup
