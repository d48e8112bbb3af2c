import AppBundle.Proofs.Reading
import AppBundle.Xml.Markup.Parse

/-!
# Tags that nest

The tokenizer checks that a closing tag names the tag that is open.  So an element
is open wherever one is closed: its tokens nest, up to a fault (`scanned_tokens`).

The reader has two stacks, one of open elements and one of scopes, and different
tokens move them at different points.  Still they stay in step.  `Builder.At b depth`
says that `depth` elements are open and that there is one scope more; what a token
does to the depth it does to both stacks (`Builder.At.step`), and so does a row of
tokens (`Builder.At.of_build`).  A token fails only for a second root, or where it closes
what is not open.  Hence of the faults that a reader can have there are two that no
text causes (`error_of_parse`).
-/

namespace AppBundle.Xml.Markup

/-! ## Depth -/

/-- How many elements are open after a token, unless it closes one where none is. -/
def Token.depth? (depth : Nat) : Token → Option Nat
  | .start _ _ isEmpty => some (if isEmpty then depth else depth + 1)
  | .finish =>
    match depth with
    | 0 => none
    | depth + 1 => some depth
  | .text _ => some depth
  | .verbatim _ => some depth

/-- Tokens that lead from one depth to another and close only what is open. -/
inductive Nested : Nat → List Token → Nat → Prop where
  /-- No tokens stay where they are. -/
  | nil (depth : Nat) : Nested depth [] depth
  /-- A token leads to another depth, and the others go on from there. -/
  | cons {depth depth' last : Nat} {token : Token} {ts : List Token}
    (first : token.depth? depth = some depth') (rest : Nested depth' ts last) :
    Nested depth (token :: ts) last

/-- What a tokenizer gives: tokens that close only what is open, and then a fault or the end. -/
inductive Scanned : Nat → List (Except CodecError Token) → Prop where
  /-- The end. -/
  | nil (depth : Nat) : Scanned depth []
  /-- A fault. -/
  | fault (depth : Nat) : Scanned depth [.error .markup]
  /-- A token leads to another depth, and the others go on from there. -/
  | cons {depth depth' : Nat} {token : Token} {out : List (Except CodecError Token)}
    (first : token.depth? depth = some depth') (rest : Scanned depth' out) :
    Scanned depth (.ok token :: out)

theorem Nested.singleton {depth depth' : Nat} {token : Token}
    (h : token.depth? depth = some depth') : Nested depth [token] depth' :=
  .cons h (.nil depth')

theorem Nested.scanned {depth depth' : Nat} {ts : List Token} (h : Nested depth ts depth')
    {out : List (Except CodecError Token)} (hout : Scanned depth' out) :
    Scanned depth (ts.map .ok ++ out) := by
  induction h with
  | nil depth => exact hout
  | cons first rest ih => exact .cons first (ih hout)

/-! ## The tokenizer -/

/-- A run of text is a token at most, and opens and closes nothing. -/
theorem nested_of_textTokens? {run : List Char} {ts : List Token} (h : textTokens? run = some ts)
    (depth : Nat) : Nested depth ts depth := by
  simp only [textTokens?] at h
  split at h
  · cases h
    exact .nil depth
  · obtain ⟨text, -, rfl⟩ := Option.map_eq_some_iff.1 h
    exact .singleton rfl

variable {opened opened' : List (List Char)}

/-- A tag changes the depth as its token says. -/
theorem depth?_of_tagToken? {content : List Char} {token : Token}
    (h : tagToken? opened content = some (token, opened')) :
    token.depth? opened.length = some opened'.length := by
  unfold tagToken? at h
  split at h
  · split at h
    · split at h
      · cases h
        rfl
      · cases h
    · cases h
  · obtain ⟨attributes, -, h⟩ := Option.bind_eq_some_iff.1 h
    cases h
    simp only [Token.depth?]
    split <;> rfl

theorem nested_of_pieceTokens? {p : Piece} {ts : List Token}
    (h : pieceTokens? opened p = some (ts, opened')) :
    Nested opened.length ts opened'.length := by
  cases p with
  | skipped =>
    cases h
    exact .nil _
  | verbatim text =>
    cases h
    exact .singleton rfl
  | tag content =>
    obtain ⟨⟨token, after⟩, htoken, h⟩ := Option.map_eq_some_iff.1 h
    cases h
    exact .singleton (depth?_of_tagToken? htoken)

/-- The tokens of a text close only what is open. -/
theorem scanned_scan (opened : List (List Char)) (cs : List Char) :
    Scanned opened.length (scan opened cs) := by
  fun_induction scan opened cs with
  | case1 => exact .fault _
  | case2 opened cs run hrun ih =>
    refine (nested_of_textTokens? hrun _).scanned ?_
    split
    · exact .nil _
    · rename_i rest hbracket
      split
      · exact .fault _
      · rename_i p rest' hpiece
        split
        · exact .fault _
        · rename_i ts opened' hpieces
          exact (nested_of_pieceTokens? hpieces).scanned (ih _ rest hbracket p rest' hpiece opened')

theorem scanned_tokens (text : String) : Scanned 0 (tokens text) := by
  unfold tokens
  split
  · exact scanned_scan [] _
  · exact scanned_scan [] _

/-! ## The reader -/

namespace Builder

/-- So many elements are open, and the stack of scopes is in step. -/
structure At (b : Builder) (depth : Nat) : Prop where
  /-- The open elements. -/
  opened : b.opened.length = depth
  /-- Each of them has a scope, and there is the outermost one. -/
  scopes : b.scopes.length = depth + 1

variable {b b' : Builder} {depth : Nat}

theorem At.initial : At {} 0 := ⟨rfl, rfl⟩

/-- A closed element comes to stand inside of what is open. -/
theorem At.attach (hb : b.At depth) {e : Element} (h : b.attach e = .ok b') : b'.At depth := by
  obtain ⟨hopened, hscopes⟩ := hb
  simp only [Builder.attach] at h
  split at h
  · rename_i hcons
    cases h
    exact ⟨by simpa [hcons] using hopened, hscopes⟩
  · split at h
    · cases h
      exact ⟨hopened, hscopes⟩
    · cases h

theorem At.addText (hb : b.At depth) (text : String) : (b.addText text).At depth := by
  obtain ⟨hopened, hscopes⟩ := hb
  simp only [Builder.addText]
  split
  · rename_i hcons
    exact ⟨by simpa [hcons] using hopened, hscopes⟩
  · exact ⟨hopened, hscopes⟩

theorem severalRoots_of_attach {e : Element} {fault : CodecError} (h : b.attach e = .error fault) :
    fault = .severalRoots := by
  simp only [Builder.attach] at h
  split at h
  · cases h
  · split at h
    · cases h
    · cases h
      rfl

/-- A token moves both stacks as it moves the depth. -/
theorem At.step (hb : b.At depth) {token : Token} (h : b.step token = .ok b') :
    ∃ depth', token.depth? depth = some depth' ∧ b'.At depth' := by
  cases token with
  | start key attributes isEmpty =>
    simp only [Builder.step] at h
    cases isEmpty with
    | true => exact ⟨depth, rfl, hb.attach h⟩
    | false =>
      cases h
      exact ⟨depth + 1, rfl, by simp [hb.opened], by simp [hb.scopes]⟩
  | finish =>
    simp only [Builder.step] at h
    split at h
    · cases h
    · rename_i e opened hopened
      split at h
      · cases h
      · obtain ⟨hlength, hscopes⟩ := hb
        rw [hopened, List.length_cons] at hlength
        subst hlength
        refine ⟨opened.length, rfl, At.attach ⟨rfl, ?_⟩ h⟩
        simp [hscopes]
  | text text =>
    cases h
    refine ⟨depth, rfl, ?_⟩
    split
    · exact hb
    · exact hb.addText _
  | verbatim text =>
    cases h
    exact ⟨depth, rfl, hb.addText text⟩

/-- A token fails for a second root, or where it closes what is not open. -/
theorem At.step_error (hb : b.At depth) {token : Token} {e : CodecError}
    (h : b.step token = .error e) : e = .severalRoots ∨ token.depth? depth = none := by
  cases token with
  | start key attributes isEmpty =>
    simp only [Builder.step] at h
    split at h
    · exact .inl (severalRoots_of_attach h)
    · cases h
  | finish =>
    obtain ⟨hlength, hscopes⟩ := hb
    simp only [Builder.step] at h
    split at h
    · rename_i hopened
      rw [hopened] at hlength
      subst hlength
      exact .inr rfl
    · rename_i opened hopened
      rw [hopened, List.length_cons] at hlength
      rw [if_neg (by omega)] at h
      exact .inl (severalRoots_of_attach h)
  | text text => cases h
  | verbatim text => cases h

end Builder

theorem build_cons (b : Builder) (token : Token) (rest : List (Except CodecError Token)) :
    build b (.ok token :: rest) = b.step token >>= fun b' => build b' rest :=
  List.foldlM_cons

theorem build_append (b : Builder) (front back : List (Except CodecError Token)) :
    build b (front ++ back) = build b front >>= fun b' => build b' back :=
  List.foldlM_append

/-- What was built was built from tokens that close only what is open. -/
theorem Builder.At.of_build {b b' : Builder} {depth : Nat} {out : List (Except CodecError Token)}
    (hb : b.At depth) (h : build b out = .ok b') :
    ∃ ts depth', out = ts.map .ok ∧ Nested depth ts depth' ∧ b'.At depth' := by
  induction out generalizing b depth with
  | nil =>
    cases h
    exact ⟨[], depth, rfl, .nil depth, hb⟩
  | cons token out ih =>
    cases token with
    | error e => cases h
    | ok token =>
      rw [build_cons] at h
      obtain ⟨b₁, hstep, h⟩ := Step.ok_of_bind h
      obtain ⟨depth₁, hfirst, hb₁⟩ := hb.step hstep
      obtain ⟨ts, depth', rfl, hnested, hb'⟩ := ih hb₁ h
      exact ⟨token :: ts, depth', rfl, .cons hfirst hnested, hb'⟩

/-- What a tokenizer gives is refused for a fault of its own or for a second root alone. -/
theorem Builder.At.error_of_build {b : Builder} {depth : Nat} {out : List (Except CodecError Token)}
    (hout : Scanned depth out) (hb : b.At depth) {e : CodecError} (h : build b out = .error e) :
    e = .markup ∨ e = .severalRoots := by
  induction hout generalizing b with
  | nil depth => cases h
  | fault depth =>
    cases h
    exact .inl rfl
  | cons first rest ih =>
    rw [build_cons] at h
    rcases Step.error_of_bind h with h | ⟨b', hstep, h⟩
    · exact .inr ((hb.step_error h).resolve_right (by simp [first]))
    · obtain ⟨depth₁, hfirst, hb'⟩ := hb.step hstep
      cases first.symm.trans hfirst
      exact ih hb' h

/-- Why a text is not read: its markup, a second root, an element left open or no root. -/
theorem error_of_parse {text : String} {e : CodecError} (h : parse text = .error e) :
    e = .markup ∨ e = .severalRoots ∨ e = .unclosedTags ∨ e = .emptyText := by
  rcases Step.error_of_bind h with h | ⟨b, -, h⟩
  · exact (Builder.At.error_of_build (scanned_tokens text) .initial h).imp_right .inl
  rcases Step.error_of_bind h with h | ⟨root, -, h⟩
  · refine .inr (.inr ?_)
    simp only [Builder.finish] at h
    split at h
    · cases h
      exact .inl rfl
    · cases h
    · cases h
      exact .inr rfl
  · cases h

end AppBundle.Xml.Markup
