import AppBundle.Proofs.Reading
import AppBundle.Proofs.Xml.Literal
import AppBundle.Proofs.Xml.Lookup
import AppBundle.Xml.Markup.Parse

/-!
# What a text document builds

A text document can write more than a binary one holds: an attribute twice over,
a prefix declared again, a value that is a literal and text at once.  The reader
settles all of that as it goes.  A later attribute takes the place of one of the
same name, a prefix is declared once, and a literal that is compiled leaves no
raw text.  Ids it takes from the platform alone.

Nothing but tags makes elements.  So what is true of the element that any tag
starts is true of all that the tokens so far have built (`Builder.AllTags`):
each token keeps it (`Builder.AllTags.step`), and a row of tokens does
(`Builder.AllTags.build`).  The tree in the end is canonical
(`canonical_of_parse`) and its attributes are regular (`regular_of_parse`).
-/

namespace AppBundle.Xml.Markup

/-! ## Attributes -/

/-- A literal is compiled to a value that stands alone. -/
theorem fitsRaw_of_ofLiteral? {text : String} {item : Item} (h : Item.ofLiteral? text = some item) :
    item.FitsRaw "" := by
  have hliteral := Item.whole_literal_eq_some_iff.1 h
  generalize Text.trimBy Text.isBlank text.toList = cs at hliteral
  cases hliteral with
  | reference h => exact ⟨rfl, rfl⟩
  | _ => exact rfl

/-- No attribute of the platform has the id that stands for none. -/
theorem attributeId?_ne_zero (name : String) : Platform.attributeId? name ≠ some 0 := by
  intro h
  obtain ⟨front, back, hids, -⟩ := List.lookup_eq_some_iff.1 h
  have hmem : (name, 0) ∈ Platform.attributeIds := by simp [hids]
  have hne : ∀ entry ∈ Platform.attributeIds, entry.2 ≠ 0 := by decide
  exact hne _ hmem rfl

theorem canonical_attributeOf (scopes : List Scope) (key value : String) :
    (attributeOf scopes key value).Canonical := by
  unfold attributeOf
  obtain ⟨pfx, name⟩ := splitName key
  have hid : ∀ uri, (if uri = androidUri then Platform.attributeId? name else none) ≠ some 0 := by
    intro uri
    split
    · exact attributeId?_ne_zero name
    · exact nofun
  dsimp only
  split
  · rename_i item hcompiled
    obtain ⟨hliteral, -⟩ := Option.filter_eq_some_iff.1 hcompiled
    exact Attribute.canonical_setItem (hid _) (fitsRaw_of_ofLiteral? hliteral)
  · exact Attribute.canonical_setText (hid _) value

theorem regular_attributeOf (scopes : List Scope) (key value : String) :
    (attributeOf scopes key value).Regular := by
  unfold attributeOf
  obtain ⟨pfx, name⟩ := splitName key
  dsimp only
  split
  · rfl
  · rfl

/-! ## Elements -/

/-- An element that a tag starts is made of a bare one by declarations and attributes. -/
theorem elementOf_induct {P : Element → Prop} (own : Scope) (scopes : List Scope) (key : String)
    (attributes : List (String × String)) (bare : ∀ uri name, P { namespaceUri := uri, name })
    (declare : ∀ e d, P e → P (e.declare d))
    (insert : ∀ e key value, P e → P (e.insert (attributeOf scopes key value))) :
    P (elementOf own scopes key attributes) := by
  unfold elementOf
  obtain ⟨pfx, name⟩ := splitName key
  refine List.foldlRecOn _ _ (List.foldlRecOn _ _ (bare _ _) ?_) ?_
  · intro e he p _
    exact declare e ⟨p.1, p.2⟩ he
  · intro e he p _
    exact insert e p.1 p.2 he

theorem started_elementOf (own : Scope) (scopes : List Scope) (key : String)
    (attributes : List (String × String)) : Node.Started (elementOf own scopes key attributes) :=
  elementOf_induct own scopes key attributes .bare (fun _ d he => he.declare d)
    fun _ key value he => he.insert (canonical_attributeOf scopes key value)

theorem regular_elementOf (own : Scope) (scopes : List Scope) (key : String)
    (attributes : List (String × String)) :
    (elementOf own scopes key attributes).toTag.Regular := by
  refine elementOf_induct (P := fun e => e.toTag.Regular) own scopes key attributes
    (fun _ _ => List.forall_mem_nil _) ?_ ?_
  · intro e d he
    rw [Element.declare]
    split
    · exact he
    · exact he
  · intro e key value he
    have ha := regular_attributeOf scopes key value
    exact FirstMatch.forall_mem_modifyOrPush (fun _ _ => ha) ha he

/-! ## Tokens -/

namespace Builder

/-- What a node does to what was built before it. -/
def add (b : Builder) : Node → Except CodecError Builder
  | .element tag children => b.attach ⟨tag, children⟩
  | .text s => .ok (b.addText s)

/-- The builder inside of an element with this scope and with these children so far. -/
def within (b : Builder) (own : Scope) (tag : Tag) (children : List Node) : Builder where
  scopes := own :: b.scopes
  opened := ⟨tag, children⟩ :: b.opened
  root := b.root

/-- A node inside of an element comes behind the children that it has so far. -/
theorem add_within (b : Builder) (own : Scope) (tag : Tag) (children : List Node) (n : Node) :
    (b.within own tag children).add n = .ok (b.within own tag (children ++ [n])) := by
  cases n with
  | element tag children => rfl
  | text s => rfl

/-- The end of an element closes it, and takes its scope away. -/
theorem step_finish {b : Builder} (hb : b.scopes ≠ []) (own : Scope) (tag : Tag)
    (children : List Node) :
    (b.within own tag children).step .finish = b.attach ⟨tag, children⟩ := by
  have hlength := List.length_pos_iff.2 hb
  have hdeep : ¬ (b.within own tag children).scopes.length ≤ 1 := by
    simp only [within, List.length_cons]
    omega
  show (if (b.within own tag children).scopes.length ≤ 1 then
    Except.error CodecError.scopeUnderflow else _) = _
  rw [if_neg hdeep]
  rfl

end Builder

/-- All start tags in what the tokens so far have built have a property. -/
structure Builder.AllTags (P : Tag → Prop) (b : Builder) : Prop where
  /-- Those of the open elements, with the children that they have so far. -/
  opened : ∀ e ∈ b.opened, e.toNode.AllTags P
  /-- Those of the root. -/
  root : ∀ e ∈ b.root, e.toNode.AllTags P

namespace Builder.AllTags

variable {P : Tag → Prop} {b b' : Builder}

theorem initial : Builder.AllTags P {} := by
  constructor
  · intro e he
    cases he
  · intro e he
    cases he

theorem attach (hb : b.AllTags P) {e : Element} (he : e.toNode.AllTags P)
    (h : b.attach e = .ok b') : b'.AllTags P := by
  simp only [Builder.attach] at h
  split at h
  · rename_i parent opened hopened
    cases h
    have hall := hb.opened
    rw [hopened, List.forall_mem_cons] at hall
    exact ⟨List.forall_mem_cons.2 ⟨hall.1.push he, hall.2⟩, hb.root⟩
  · rename_i hopened
    split at h
    · cases h
      refine ⟨hb.opened, ?_⟩
      rintro root ⟨⟩
      exact he
    · cases h

theorem addText (hb : b.AllTags P) (text : String) : (b.addText text).AllTags P := by
  simp only [Builder.addText]
  split
  · rename_i e opened hopened
    have hall := hb.opened
    rw [hopened, List.forall_mem_cons] at hall
    exact ⟨List.forall_mem_cons.2 ⟨hall.1.push (Node.allTags_text text), hall.2⟩, hb.root⟩
  · exact hb

/-- Every token keeps what is true of the element that any tag starts. -/
theorem step (htag : ∀ own scopes key attributes, P (elementOf own scopes key attributes).toTag)
    (hb : b.AllTags P) {token : Token} (h : b.step token = .ok b') : b'.AllTags P := by
  cases token with
  | start key attributes isEmpty =>
    have he : (elementOf (scopeOf attributes) (scopeOf attributes :: b.scopes) key
        attributes).toNode.AllTags P :=
      .of_childless (htag ..) (started_elementOf ..).children_eq
    simp only [Builder.step] at h
    split at h
    · exact hb.attach he h
    · cases h
      exact ⟨List.forall_mem_cons.2 ⟨he, hb.opened⟩, hb.root⟩
  | finish =>
    simp only [Builder.step] at h
    split at h
    · cases h
    · rename_i e opened hopened
      split at h
      · cases h
      · have hall := hb.opened
        rw [hopened, List.forall_mem_cons] at hall
        exact attach (b := { b with scopes := b.scopes.drop 1, opened }) ⟨hall.2, hb.root⟩ hall.1 h
  | text text =>
    simp only [Builder.step, Except.ok.injEq] at h
    subst h
    split
    · exact hb
    · exact hb.addText _
  | verbatim text =>
    cases h
    exact hb.addText text

/-- A row of tokens does so as well. -/
theorem build (htag : ∀ own scopes key attributes, P (elementOf own scopes key attributes).toTag)
    {tokens : List (Except CodecError Token)} (hb : b.AllTags P) (h : build b tokens = .ok b') :
    b'.AllTags P := by
  refine Step.foldlM_ok_induct ?_ hb h
  intro b token b' hb hstep
  obtain ⟨token, -, hstep⟩ := Step.ok_of_bind hstep
  exact hb.step htag hstep

end Builder.AllTags

/-- All that the tokens so far have built is canonical. -/
structure Builder.Canonical (b : Builder) : Prop where
  /-- The open elements are, with the children that they have so far. -/
  opened : ∀ e ∈ b.opened, e.toNode.Canonical
  /-- The root is. -/
  root : ∀ e ∈ b.root, e.toNode.Canonical

theorem Builder.canonical_iff {b : Builder} : b.Canonical ↔ b.AllTags Tag.Canonical :=
  ⟨fun h => ⟨fun e he => (h.opened e he).tags, fun e he => (h.root e he).tags⟩,
    fun h => ⟨fun e he => Node.canonical_toNode.2 (h.opened e he),
      fun e he => Node.canonical_toNode.2 (h.root e he)⟩⟩

/-- A row of tokens builds what is canonical. -/
theorem Builder.canonical_of_build {tokens : List (Except CodecError Token)} {b : Builder}
    (h : build {} tokens = .ok b) : b.Canonical :=
  canonical_iff.2 (AllTags.build (fun own scopes key attributes =>
    (started_elementOf own scopes key attributes).tag) .initial h)

/-! ## Documents -/

/-- A document ends with nothing open and with its root closed. -/
theorem Builder.of_finish {b : Builder} {e : Element} (h : b.finish = .ok e) :
    b.opened = [] ∧ b.root = some e := by
  simp only [Builder.finish] at h
  split at h
  · cases h
  · rename_i hopened hroot
    cases h
    exact ⟨hopened, hroot⟩
  · cases h

/-- The tree of a document is the root that its tokens build. -/
theorem build_of_parse {text : String} {n : Node} (h : parse text = .ok n) :
    ∃ b, build {} (tokens text) = .ok b ∧ b.opened = [] ∧ ∃ e, b.root = some e ∧ e.toNode = n := by
  obtain ⟨b, hbuild, h⟩ := Step.ok_of_bind h
  obtain ⟨e, hfinish, h⟩ := Step.ok_of_bind h
  cases h
  obtain ⟨hopened, hroot⟩ := Builder.of_finish hfinish
  exact ⟨b, hbuild, hopened, e, hroot, rfl⟩

/-- What a reader makes of any text that it accepts is canonical. -/
theorem canonical_of_parse {text : String} {n : Node} (h : parse text = .ok n) : n.Canonical := by
  obtain ⟨b, hbuild, -, e, hroot, rfl⟩ := build_of_parse h
  exact (Builder.canonical_of_build hbuild).root e hroot

/-- The ids in a text document are those that the platform gives to names. -/
theorem regular_of_parse {text : String} {n : Node} (h : parse text = .ok n) :
    n.AllTags Tag.Regular := by
  obtain ⟨b, hbuild, -, e, hroot, rfl⟩ := build_of_parse h
  exact (Builder.AllTags.build regular_elementOf .initial hbuild).root e hroot

end AppBundle.Xml.Markup
