import AppBundle.Proofs.Xml.Markup.Nesting
import AppBundle.Proofs.Xml.Markup.Parsed

/-!
# Trees of tags

A document is tags around what is in them.  `Source` is that tree, before any of
its names means something, and tokens that nest are the tokens of such trees
(`exists_sources`).  In a tree it is plain which start tags are around a name
(`Source.tags`).

The reader has no tree.  It has the scopes on its stack, which it puts there and
takes away token by token.  But what it does with the tokens of a tree depends on
the start tags around it alone: it adds the nodes that the tree makes among them
(`build_tokens`), whatever stands in front of it.
-/

namespace AppBundle.Xml.Markup

/-- The attributes of a tag as they are written, declarations among them. -/
abbrev Pairs := List (String × String)

/-! ## Start tags -/

/-- A start tag, and the start tags of the elements around it, innermost first. -/
structure StartTag where
  /-- Its name, with the prefix. -/
  key : String
  /-- Its attributes. -/
  own : Pairs
  /-- The attributes of the start tags around it. -/
  outer : List Pairs

/-- The start tags that decide what a prefix in this one stands for. -/
def StartTag.around (t : StartTag) : List Pairs := t.own :: t.outer

/-- The scopes of nested start tags.  The outermost one declares nothing. -/
def scopesOf (around : List Pairs) : List Scope := around.map scopeOf ++ [∅]

/-- What a start tag is read as. -/
def StartTag.read (t : StartTag) : Tag :=
  (elementOf (scopeOf t.own) (scopesOf t.around) t.key t.own).toTag

/-! ## Trees of tags -/

/-- A document as it is written, with no meaning given to its names. -/
inductive Source where
  /-- An empty tag. -/
  | empty (key : String) (pairs : Pairs)
  /-- A start tag, what follows it, and the end tag. -/
  | element (key : String) (pairs : Pairs) (children : List Source)
  /-- A run of text. -/
  | text (text : String)
  /-- A section that is text as it stands. -/
  | verbatim (text : String)

namespace Source

mutual

/-- The tokens of a tree. -/
def tokens : Source → List Token
  | .empty key pairs => [.start key pairs true]
  | .element key pairs children => .start key pairs false :: (tokensAll children ++ [.finish])
  | .text run => [.text run]
  | .verbatim run => [.verbatim run]

/-- The tokens of a list of trees. -/
def tokensAll : List Source → List Token
  | [] => []
  | s :: ss => s.tokens ++ tokensAll ss

end

mutual

/-- The start tags of a tree among those around it, in the order of the document. -/
def tags (around : List Pairs) : Source → List StartTag
  | .empty key pairs => [⟨key, pairs, around⟩]
  | .element key pairs children => ⟨key, pairs, around⟩ :: tagsAll (pairs :: around) children
  | .text _ => []
  | .verbatim _ => []

/-- The start tags of a list of trees among those around it. -/
def tagsAll (around : List Pairs) : List Source → List StartTag
  | [] => []
  | s :: ss => s.tags around ++ tagsAll around ss

end

mutual

/-- The nodes that a tree makes, among the start tags around it. -/
def nodes (around : List Pairs) : Source → List Node
  | .empty key pairs => [.element (StartTag.read ⟨key, pairs, around⟩) []]
  | .element key pairs children =>
    [.element (StartTag.read ⟨key, pairs, around⟩) (nodesAll (pairs :: around) children)]
  | .text run => if Text.trim run = "" then [] else [.text (Text.trim run)]
  | .verbatim run => [.text run]

/-- The nodes that a list of trees makes. -/
def nodesAll (around : List Pairs) : List Source → List Node
  | [] => []
  | s :: ss => s.nodes around ++ nodesAll around ss

end

end Source

/-! ## Tokens that nest are those of trees -/

/-- Tokens that leave nothing open are those of a row of trees, and of one more row
behind each end tag of an element that was open before. -/
theorem exists_rows {depth last : Nat} {ts : List Token} (h : Nested depth ts last)
    (hlast : last = 0) : ∃ (row : List Source) (rows : List (List Source)), rows.length = depth ∧
      ts = Source.tokensAll row ++ rows.flatMap fun row => .finish :: Source.tokensAll row := by
  induction h with
  | nil depth =>
    subst hlast
    exact ⟨[], [], rfl, rfl⟩
  | @cons depth depth' last token ts first rest ih =>
    obtain ⟨row, rows, hrows, rfl⟩ := ih hlast
    cases token with
    | start key pairs isEmpty =>
      cases isEmpty with
      | true =>
        cases first
        exact ⟨.empty key pairs :: row, rows, hrows, by simp [Source.tokensAll, Source.tokens]⟩
      | false =>
        cases first
        obtain ⟨next, rows, rfl⟩ := List.exists_cons_of_length_eq_add_one hrows
        -- The first row goes into the element, up to the end tag behind it.
        refine ⟨.element key pairs row :: next, rows, by simpa using hrows, ?_⟩
        simp [Source.tokensAll, Source.tokens]
    | finish =>
      cases depth with
      | zero => cases first
      | succ depth =>
        cases first
        exact ⟨[], row :: rows, by simp [hrows], by simp [Source.tokensAll]⟩
    | text run =>
      cases first
      exact ⟨.text run :: row, rows, hrows, by simp [Source.tokensAll, Source.tokens]⟩
    | verbatim run =>
      cases first
      exact ⟨.verbatim run :: row, rows, hrows, by simp [Source.tokensAll, Source.tokens]⟩

/-- Tokens that open and close the same elements are those of a row of trees. -/
theorem exists_sources {ts : List Token} (h : Nested 0 ts 0) :
    ∃ sources, ts = Source.tokensAll sources := by
  obtain ⟨row, rows, hrows, rfl⟩ := exists_rows h rfl
  obtain rfl := List.eq_nil_of_length_eq_zero hrows
  exact ⟨row, List.append_nil _⟩

/-! ## What the reader makes of a tree -/

namespace Builder

variable {b b' : Builder} {n : Node} {ns : List Node}

theorem scopes_of_add (h : b.add n = .ok b') : b'.scopes = b.scopes := by
  cases n with
  | text run =>
    cases h
    simp only [addText]
    split <;> rfl
  | element tag children =>
    simp only [add, attach] at h
    split at h
    · cases h
      rfl
    · split at h
      · cases h
        rfl
      · cases h

/-- Nodes leave the scopes as they are. -/
theorem scopes_of_foldlM_add (h : ns.foldlM add b = .ok b') : b'.scopes = b.scopes :=
  Step.foldlM_ok_induct (P := fun b' => b'.scopes = b.scopes)
    (fun _ _ _ hb hstep => (scopes_of_add hstep).trans hb) rfl h

/-- Nodes inside of an element come behind the children that it has so far. -/
theorem foldlM_add_within (b : Builder) (own : Scope) (tag : Tag) (children ns : List Node) :
    ns.foldlM add (b.within own tag children) = .ok (b.within own tag (children ++ ns)) := by
  induction ns generalizing children with
  | nil =>
    rw [List.append_nil]
    rfl
  | cons n ns ih =>
    rw [List.foldlM_cons, Step.bind_ok _ (add_within ..), ih, List.append_assoc]
    rfl

/-- Where nothing is open, an element becomes the root, and text is dropped. -/
theorem root_of_foldlM_add (h : b.opened = []) (hadd : ns.foldlM add b = .ok b') :
    b'.root.toList = b.root.toList ++ ns.filterMap Node.element? := by
  induction ns generalizing b with
  | nil =>
    cases hadd
    exact (List.append_nil _).symm
  | cons n ns ih =>
    rw [List.foldlM_cons] at hadd
    obtain ⟨b₁, hfirst, hrest⟩ := Step.ok_of_bind hadd
    cases n with
    | text run =>
      cases hfirst
      have hsame : b.addText run = b := by simp only [addText, h]
      rw [hsame] at hrest
      exact ih h hrest
    | element tag children =>
      simp only [add, attach, h] at hfirst
      split at hfirst
      · rename_i hroot
        cases hfirst
        rw [ih rfl hrest, Option.isNone_iff_eq_none.1 hroot]
        rfl
      · cases hfirst

end Builder

/-- A start tag opens the element that it is read as, or adds it if it is empty. -/
theorem Builder.step_startTag {b : Builder} {t : StartTag} (hb : b.scopes = scopesOf t.outer)
    (isEmpty : Bool) : b.step (.start t.key t.own isEmpty) =
      if isEmpty then b.attach ⟨t.read, []⟩ else .ok (b.within (scopeOf t.own) t.read []) := by
  have hchildren := (started_elementOf (scopeOf t.own) (scopesOf t.around) t.key t.own).children_eq
  have helement : elementOf (scopeOf t.own) (scopeOf t.own :: scopesOf t.outer) t.key t.own =
      ⟨t.read, []⟩ := by
    rw [← hchildren]
    rfl
  simp only [step, within, hb, helement]

mutual

/-- The tokens of a tree add the nodes that it makes among the start tags around it. -/
theorem build_tokens : ∀ {s : Source} {around : List Pairs} {b : Builder},
    b.scopes = scopesOf around →
      build b (s.tokens.map .ok) = (s.nodes around).foldlM Builder.add b
  | .empty key pairs, around, b, hb => by
    have hstart := Builder.step_startTag (t := ⟨key, pairs, around⟩) hb true
    rw [Source.tokens, Source.nodes, List.map_singleton, build_cons, List.foldlM_cons, hstart]
    rfl
  | .element key pairs children, around, b, hb => by
    have hstart := Builder.step_startTag (t := ⟨key, pairs, around⟩) hb false
    have hinner : (b.within (scopeOf pairs) (StartTag.read ⟨key, pairs, around⟩) []).scopes =
        scopesOf (pairs :: around) := congrArg (scopeOf pairs :: ·) hb
    have hchildren := (build_tokensAll hinner).trans
      (Builder.foldlM_add_within b _ _ [] (Source.nodesAll (pairs :: around) children))
    have hscopes : b.scopes ≠ [] := by simp [hb, scopesOf]
    rw [Source.tokens, Source.nodes, List.map_cons, List.map_append, build_cons,
      Step.bind_ok _ hstart, build_append, Step.bind_ok _ hchildren, List.map_singleton, build_cons,
      List.foldlM_cons, Builder.step_finish hscopes]
    rfl
  | .text run, around, b, hb => by
    rw [Source.tokens, Source.nodes, List.map_singleton, build_cons]
    simp only [Builder.step]
    split <;> rfl
  | .verbatim run, around, b, hb => rfl

theorem build_tokensAll : ∀ {ss : List Source} {around : List Pairs} {b : Builder},
    b.scopes = scopesOf around →
      build b ((Source.tokensAll ss).map .ok) = (Source.nodesAll around ss).foldlM Builder.add b
  | [], around, b, hb => rfl
  | s :: ss, around, b, hb => by
    rw [Source.tokensAll, Source.nodesAll, List.map_append, build_append, List.foldlM_append,
      build_tokens hb]
    cases hfirst : (s.nodes around).foldlM Builder.add b with
    | error e => rfl
    | ok b' => exact build_tokensAll ((Builder.scopes_of_foldlM_add hfirst).trans hb)

end

/-! ## Documents -/

variable {text : String} {n : Node}

/-- A text that is read has the tokens of a row of trees. -/
theorem exists_sources_of_parse (h : parse text = .ok n) :
    ∃ sources, tokens text = (Source.tokensAll sources).map .ok := by
  obtain ⟨b, hbuild, hopened, -⟩ := build_of_parse h
  obtain ⟨ts, depth, htokens, hnested, hb⟩ := Builder.At.initial.of_build hbuild
  obtain rfl : depth = 0 := by rw [← hb.opened, hopened, List.length_nil]
  obtain ⟨sources, rfl⟩ := exists_sources hnested
  exact ⟨sources, htokens⟩

/-- The tree of a text is the one element among the nodes that its tokens make. -/
theorem filterMap_nodesAll_of_parse (h : parse text = .ok n) {sources : List Source}
    (hsources : tokens text = (Source.tokensAll sources).map .ok) :
    ∃ e, (Source.nodesAll [] sources).filterMap Node.element? = [e] ∧ e.toNode = n := by
  obtain ⟨b, hbuild, -, e, hroot, rfl⟩ := build_of_parse h
  have hinitial : Builder.scopes {} = scopesOf [] := rfl
  rw [hsources, build_tokensAll hinitial] at hbuild
  refine ⟨e, ?_, rfl⟩
  simpa [hroot] using (Builder.root_of_foldlM_add rfl hbuild).symm

end AppBundle.Xml.Markup
