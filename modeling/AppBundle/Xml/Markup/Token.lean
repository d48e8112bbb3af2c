import AppBundle.Text.Blank
import AppBundle.Xml.CodecError
import AppBundle.Xml.Markup.Escape

/-!
# Tokens of text documents

A text document is a row of tags and runs of text.  The tokenizer is lenient:
it knows where tags, comments, verbatim sections, document types and processing
instructions end, how attributes are written and what references mean, and it
checks that each closing tag names the tag that is open.  It knows nothing of
namespaces.

`scan` gives the tokens up to the first fault, and then the fault.  So whoever
reads the tokens in order sees a fault of its own first when it comes first.
-/

namespace AppBundle.Xml.Markup

open Text

/-- A token of a text document. -/
inductive Token where
  /-- A tag that opens an element; an empty one closes it as well. -/
  | start (name : String) (attributes : List (String × String)) (isEmpty : Bool)
  /-- A tag that closes the element that is open. -/
  | finish
  /-- A run of text. -/
  | text (text : String)
  /-- A section that is text as it stands. -/
  | verbatim (text : String)
deriving DecidableEq, Repr

/-! ## Ends -/

/-- The text before the first place where `stop` stands, and the text after it. -/
def cut? (stop : List Char) : List Char → Option (List Char × List Char)
  | [] => none
  | c :: cs =>
    if stop.isPrefixOf (c :: cs) then some ([], (c :: cs).drop stop.length)
    else (cut? stop cs).map fun (before, after) => (c :: before, after)

/-- The text up to the `>` that is inside `depth` pairs of angle brackets, and the text after it. -/
def bracketEnd? : Nat → List Char → Option (List Char × List Char)
  | _, [] => none
  | 0, '>' :: cs => some ([], cs)
  | depth + 1, '>' :: cs => (bracketEnd? depth cs).map fun (before, after) => ('>' :: before, after)
  | depth, c :: cs =>
    (bracketEnd? (if c = '<' then depth + 1 else depth) cs).map fun (before, after) =>
      (c :: before, after)

/-- Whether the character is a quotation mark. -/
def isQuote (c : Char) : Bool := c == '"' || c == '\''

/-- The text up to the first `>` outside quotation marks, and the text after it. -/
def tagEnd? : Option Char → List Char → Option (List Char × List Char)
  | _, [] => none
  | none, '>' :: cs => some ([], cs)
  | quote, c :: cs =>
    let next := match quote with
      | none => if isQuote c then some c else none
      | some q => if c = q then none else some q
    (tagEnd? next cs).map fun (before, after) => (c :: before, after)

/-! ## Markup -/

/-- What follows an opening angle bracket. -/
inductive Piece where
  /-- Something that the tree does not keep. -/
  | skipped
  /-- A verbatim section. -/
  | verbatim (text : List Char)
  /-- A tag, without its brackets. -/
  | tag (content : List Char)

/-- The document type, after `!`.  It must have a name. -/
def doctype? (cs : List Char) : Option (Piece × List Char) :=
  if (cs.take 7).map Char.toUpper = ['D', 'O', 'C', 'T', 'Y', 'P', 'E'] then do
    let (content, rest) ← bracketEnd? 0 (cs.drop 7)
    if content.all isMarkupBlank then none else some (.skipped, rest)
  else none

/-- The piece of markup after an opening angle bracket, and the text after the piece. -/
def piece? : List Char → Option (Piece × List Char)
  | '!' :: '-' :: '-' :: cs => (cut? ['-', '-', '>'] cs).map fun (_, rest) => (.skipped, rest)
  | '!' :: '[' :: 'C' :: 'D' :: 'A' :: 'T' :: 'A' :: '[' :: cs =>
    (cut? [']', ']', '>'] cs).map fun (text, rest) => (.verbatim text, rest)
  | '!' :: cs => doctype? cs
  | '?' :: '>' :: _ => none
  | '?' :: cs => (cut? ['?', '>'] cs).map fun (_, rest) => (.skipped, rest)
  | cs => (tagEnd? none cs).map fun (content, rest) => (.tag content, rest)

theorem length_of_cut? {stop cs before after : List Char}
    (h : cut? stop cs = some (before, after)) :
    after.length ≤ cs.length := by
  induction cs generalizing before with
  | nil => contradiction
  | cons c cs ih =>
    simp only [cut?] at h
    split at h
    · cases h
      exact (List.drop_suffix _ _).length_le
    · obtain ⟨⟨b, a⟩, hcut, heq⟩ := Option.map_eq_some_iff.1 h
      cases heq
      exact Nat.le_succ_of_le (ih hcut)

theorem length_of_bracketEnd? {depth : Nat} {cs before after : List Char}
    (h : bracketEnd? depth cs = some (before, after)) : after.length ≤ cs.length := by
  induction cs generalizing depth before with
  | nil => simp [bracketEnd?] at h
  | cons c cs ih =>
    unfold bracketEnd? at h
    split at h
    · contradiction
    · rename_i heq
      cases heq
      cases h
      simp
    · rename_i heq
      cases heq
      obtain ⟨⟨b, a⟩, hend, heq⟩ := Option.map_eq_some_iff.1 h
      cases heq
      exact Nat.le_succ_of_le (ih hend)
    · rename_i heq
      cases heq
      obtain ⟨⟨b, a⟩, hend, heq⟩ := Option.map_eq_some_iff.1 h
      cases heq
      exact Nat.le_succ_of_le (ih hend)

theorem length_of_tagEnd? {quote : Option Char} {cs before after : List Char}
    (h : tagEnd? quote cs = some (before, after)) : after.length ≤ cs.length := by
  induction cs generalizing quote before with
  | nil => simp [tagEnd?] at h
  | cons c cs ih =>
    unfold tagEnd? at h
    split at h
    · contradiction
    · rename_i heq
      cases heq
      cases h
      simp
    · rename_i heq
      cases heq
      obtain ⟨⟨b, a⟩, hend, heq⟩ := Option.map_eq_some_iff.1 h
      cases heq
      exact Nat.le_succ_of_le (ih hend)

theorem length_of_doctype? {cs rest : List Char} {p : Piece}
    (h : doctype? cs = some (p, rest)) : rest.length ≤ cs.length := by
  simp only [doctype?] at h
  split at h
  · obtain ⟨⟨content, after⟩, hend, h⟩ := Option.bind_eq_some_iff.1 h
    have := length_of_bracketEnd? hend
    simp only at h
    split at h
    · contradiction
    · cases h
      simp at this
      omega
  · contradiction

/-- Markup does not lengthen the text that is left. -/
theorem length_of_piece? {cs rest : List Char} {p : Piece} (h : piece? cs = some (p, rest)) :
    rest.length ≤ cs.length := by
  unfold piece? at h
  split at h
  · obtain ⟨⟨b, a⟩, hcut, heq⟩ := Option.map_eq_some_iff.1 h
    cases heq
    have := length_of_cut? hcut
    simp only [List.length_cons] at this ⊢
    omega
  · obtain ⟨⟨b, a⟩, hcut, heq⟩ := Option.map_eq_some_iff.1 h
    cases heq
    have := length_of_cut? hcut
    simp only [List.length_cons] at this ⊢
    omega
  · have := length_of_doctype? h
    simp
    omega
  · contradiction
  · obtain ⟨⟨b, a⟩, hcut, heq⟩ := Option.map_eq_some_iff.1 h
    cases heq
    have := length_of_cut? hcut
    simp only [List.length_cons] at this ⊢
    omega
  · obtain ⟨⟨b, a⟩, hcut, heq⟩ := Option.map_eq_some_iff.1 h
    cases heq
    exact length_of_tagEnd? hcut

/-! ## Tags -/

/-- Whether the character continues the name of an attribute. -/
def inKey (c : Char) : Bool := c != '=' && !isMarkupBlank c

/-- The attribute at the front of a text that starts with its name, and the text after it. -/
def attribute? (first : Char) (cs : List Char) : Option ((String × String) × List Char) :=
  match (cs.dropWhile inKey).dropWhile isMarkupBlank with
  | '=' :: afterKey =>
    match afterKey.dropWhile isMarkupBlank with
    | q :: value =>
      if isQuote q then
        match value.dropWhile (· != q) with
        | _ :: rest => do
          let text ← unescape? (value.takeWhile (· != q))
          return ((String.ofList (first :: cs.takeWhile inKey), String.ofList text), rest)
        | [] => none
      else none
    | [] => none
  | _ => none

theorem length_of_attribute? {first : Char} {cs rest : List Char} {a : String × String}
    (h : attribute? first cs = some (a, rest)) : rest.length ≤ cs.length := by
  have drop (p : Char → Bool) (l : List Char) : (l.dropWhile p).length ≤ l.length :=
    (List.dropWhile_suffix p).length_le
  unfold attribute? at h
  split at h
  · rename_i afterKey hkey
    split at h
    · rename_i q value hvalue
      split at h
      · split at h
        · rename_i c tail hend
          obtain ⟨text, -, heq⟩ := Option.bind_eq_some_iff.1 h
          cases heq
          have h₁ := drop isMarkupBlank (cs.dropWhile inKey)
          have h₂ := drop inKey cs
          have h₃ := drop isMarkupBlank afterKey
          have h₄ := drop (· != q) value
          rw [hkey] at h₁
          rw [hvalue] at h₃
          rw [hend] at h₄
          simp at h₁ h₃ h₄
          omega
        · contradiction
      · contradiction
    · contradiction
  · contradiction

/-- The attributes in the rest of a tag, in order and with repetitions. -/
def attributes? (cs : List Char) : Option (List (String × String)) :=
  match _h : cs.dropWhile isMarkupBlank with
  | [] => some []
  | first :: cs' =>
    match _h' : attribute? first cs' with
    | none => none
    | some (a, rest) => (attributes? rest).map (a :: ·)
termination_by cs.length
decreasing_by
  have h₁ := (List.dropWhile_suffix (l := cs) isMarkupBlank).length_le
  rw [_h] at h₁
  have h₂ := length_of_attribute? _h'
  simp at h₁
  omega

/-- The name in a closing tag, after its slash. -/
def closingName (content : List Char) : List Char :=
  if content.all isMarkupBlank then content else trimRight isMarkupBlank content

/-- The token of a tag, and the names of the elements open after it, innermost first. -/
def tagToken? (opened : List (List Char)) : List Char → Option (Token × List (List Char))
  | '/' :: content =>
    match opened with
    | name :: opened => if closingName content = name then some (.finish, opened) else none
    | [] => none
  | content => do
    let isEmpty := content.getLast? == some '/'
    let body := if isEmpty then content.dropLast else content
    let name := body.takeWhile (!isMarkupBlank ·)
    let attributes ← attributes? (body.dropWhile (!isMarkupBlank ·))
    return (.start (String.ofList name) attributes isEmpty,
      if isEmpty then opened else name :: opened)

/-! ## Documents -/

/-- The token of a piece of markup, if the tree needs one, and the open elements after it. -/
def pieceTokens? (opened : List (List Char)) : Piece → Option (List Token × List (List Char))
  | .skipped => some ([], opened)
  | .verbatim text => some ([.verbatim (String.ofList text)], opened)
  | .tag content => (tagToken? opened content).map fun (token, opened) => ([token], opened)

/-- The token of a run of text, unless only blanks are in it. -/
def textTokens? (run : List Char) : Option (List Token) :=
  match trimBy isMarkupBlank run with
  | [] => some []
  | text => (unescape? text).map fun text => [.text (String.ofList text)]

/-- The tokens of a text while the elements with these names are open, up to the first fault. -/
def scan (opened : List (List Char)) (cs : List Char) : List (Except CodecError Token) :=
  match textTokens? (cs.takeWhile (· != '<')) with
  | none => [.error .markup]
  | some run =>
    run.map .ok ++
      match _h : cs.dropWhile (· != '<') with
      | [] => []
      | _ :: rest =>
        match _h' : piece? rest with
        | none => [.error .markup]
        | some (p, rest') =>
          match pieceTokens? opened p with
          | none => [.error .markup]
          | some (tokens, opened) => tokens.map .ok ++ scan opened rest'
termination_by cs.length
decreasing_by
  have h₁ := (List.dropWhile_suffix (l := cs) (· != '<')).length_le
  rw [_h] at h₁
  have h₂ := length_of_piece? _h'
  simp at h₁
  omega

/-- The tokens of a document, up to the first fault.  A byte order mark in front is skipped. -/
def tokens (text : String) : List (Except CodecError Token) :=
  match text.toList with
  | '\ufeff' :: cs => scan [] cs
  | cs => scan [] cs

end AppBundle.Xml.Markup
