import AppBundle.Proofs.Xml.Markup.Escape
import AppBundle.Proofs.Xml.Markup.Key
import AppBundle.Xml.Markup.Write

/-!
# Tokens of written tags

The tokenizer takes a text apart at brackets, blanks and quotation marks.  In
what is written these stand only where they are meant: keys are made of plain
names (`IsKey`), and values and runs of text are escaped.  So each written
stretch is one token, whatever comes after it: a tag that opens an element
(`scan_opening`), a tag for an empty one (`scan_empty`), a tag that closes the
element that is open (`scan_closing`), and a run of text in front of a tag
(`scan_text`).
-/

namespace AppBundle.Xml.Markup

open Text

/-! ## Written attributes -/

/-- The attributes of a tag as they are written. -/
def pairsText (pairs : List (String × String)) : List Char :=
  pairs.flatMap fun p => (attributeText p.1 p.2).toList

theorem toList_attributeText (key value : String) :
    (attributeText key value).toList =
      ' ' :: (key.toList ++ '=' :: '"' :: (value.toList.flatMap escapeChar ++ ['"'])) := by
  simp [attributeText, toList_escape]

/-- A written attribute is read back, and what follows it is left. -/
theorem attribute?_append {k : Char} {ks : List Char} (hks : ∀ c ∈ ks, isKeyChar c = true)
    (value : String) (rest : List Char) :
    attribute? k (ks ++ '=' :: '"' :: (value.toList.flatMap escapeChar ++ '"' :: rest)) =
      some ((.ofList (k :: ks), value), rest) := by
  have hkey : ∀ c ∈ ks, inKey c = true := fun c hc => inKey_of_isKeyChar (hks c hc)
  have hequals : inKey '=' = false := by decide
  have hvalue := bne_of_not_mem (not_mem_escaped (c := '"') (by decide) value.toList)
  have hquote : ('"' != '"') = false := by decide
  have hafter : ∀ (c : Char) (cs : List Char), isMarkupBlank c = false →
      (c :: cs).dropWhile isMarkupBlank = c :: cs :=
    fun c cs hc => List.dropWhile_cons_of_neg (by simp [hc])
  simp only [attribute?, dropWhile_append_cons hkey hequals, takeWhile_append_cons hkey hequals,
    hafter '=' _ (by decide), hafter '"' _ (by decide), dropWhile_append_cons hvalue hquote,
    takeWhile_append_cons hvalue hquote, unescape?_escaped]
  simp [isQuote]

theorem attributes?_cons {key : String} (hkey : IsKey key) (value : String) (rest : List Char) :
    attributes? ((attributeText key value).toList ++ rest) =
      (attributes? rest).map ((key, value) :: ·) := by
  obtain ⟨k, ks, hlist⟩ := List.exists_cons_of_ne_nil hkey.ne_nil
  have hplain := hkey.plain
  rw [hlist, List.forall_mem_cons] at hplain
  have hdrop : ((attributeText key value).toList ++ rest).dropWhile isMarkupBlank =
      k :: (ks ++ '=' :: '"' :: (value.toList.flatMap escapeChar ++ '"' :: rest)) := by
    rw [toList_attributeText, hlist, List.cons_append, List.dropWhile_cons_of_pos (by decide),
      List.cons_append, List.cons_append,
      List.dropWhile_cons_of_neg (by simp [isMarkupBlank_of_isKeyChar hplain.1])]
    simp
  have hread := attribute?_append (k := k) hplain.2 value rest
  rw [← hlist, String.ofList_toList] at hread
  rw [attributes?]
  split
  · rename_i hnil
    rw [hdrop] at hnil
    cases hnil
  · rename_i first cs hcons
    rw [hdrop] at hcons
    cases hcons
    split
    · rename_i hnone
      rw [hread] at hnone
      cases hnone
    · rename_i a rest' hsome
      rw [hread] at hsome
      cases hsome
      rfl

/-- The attributes of a written tag are read back. -/
theorem attributes?_pairsText {pairs : List (String × String)} (h : ∀ p ∈ pairs, IsKey p.1) :
    attributes? (pairsText pairs) = some pairs := by
  induction pairs with
  | nil =>
    rw [pairsText, List.flatMap_nil, attributes?]
    rfl
  | cons p pairs ih =>
    obtain ⟨hp, hpairs⟩ := List.forall_mem_cons.1 h
    rw [pairsText, List.flatMap_cons, attributes?_cons hp, ← pairsText, ih hpairs]
    rfl

/-! ## The ends of tags -/

/-- The stretch is inside of a tag and not in quotation marks at its end: the tag
goes on behind it. -/
def Inside (front : List Char) : Prop :=
  ∀ rest, tagEnd? none (front ++ rest) = (tagEnd? none rest).map (Prod.map (front ++ ·) id)

namespace Inside

variable {front back : List Char}

theorem nil : Inside [] := by
  intro rest
  rw [List.nil_append]
  cases tagEnd? none rest <;> rfl

theorem append (hfront : Inside front) (hback : Inside back) : Inside (front ++ back) := by
  intro rest
  rw [List.append_assoc, hfront, hback]
  cases tagEnd? none rest with
  | none => rfl
  | some p => simp [Prod.map]

theorem flatMap {α : Type} {f : α → List Char} {as : List α} (h : ∀ a ∈ as, Inside (f a)) :
    Inside (as.flatMap f) := by
  induction as with
  | nil => exact nil
  | cons a as ih =>
    obtain ⟨ha, has⟩ := List.forall_mem_cons.1 h
    rw [List.flatMap_cons]
    exact ha.append (ih has)

theorem singleton {c : Char} (hend : c ≠ '>') (hquote : isQuote c = false) : Inside [c] := by
  intro rest
  rw [List.singleton_append, tagEnd?]
  · simp [hquote]
    rfl
  · exact fun _ heq => hend heq

theorem of_forall (h : ∀ c ∈ front, c ≠ '>' ∧ isQuote c = false) : Inside front := by
  have hall := flatMap (f := fun c => [c]) fun c hc => singleton (h c hc).1 (h c hc).2
  rwa [List.flatMap_singleton'] at hall

/-- What is in quotation marks ends with them. -/
theorem tagEnd?_quoted {value : List Char} (h : '"' ∉ value) (rest : List Char) :
    tagEnd? (some '"') (value ++ '"' :: rest) =
      (tagEnd? none rest).map (Prod.map (value ++ '"' :: ·) id) := by
  induction value with
  | nil =>
    rw [List.nil_append, tagEnd?]
    · rfl
    · simp
  | cons c value ih =>
    obtain ⟨hc, hvalue⟩ := not_or.1 (mt List.mem_cons.2 h)
    rw [List.cons_append, tagEnd?]
    · dsimp only
      rw [if_neg (Ne.symm hc), ih hvalue]
      cases tagEnd? none rest <;> rfl
    · simp

/-- Quotation marks hide what is between them. -/
theorem quoted {value : List Char} (h : '"' ∉ value) :
    Inside ('"' :: (value ++ ['"'])) := by
  intro rest
  rw [List.cons_append, List.append_assoc, List.singleton_append, tagEnd?]
  · show (tagEnd? (some '"') _).map _ = _
    rw [tagEnd?_quoted h]
    cases tagEnd? none rest with
    | none => rfl
    | some p => simp [Prod.map]
  · simp

theorem isKey {key : String} (h : IsKey key) : Inside key.toList :=
  of_forall fun c hc =>
    ⟨ne_of_isKeyChar (h.plain c hc) (by decide), isQuote_of_isKeyChar (h.plain c hc)⟩

theorem pairsText {pairs : List (String × String)} (h : ∀ p ∈ pairs, IsKey p.1) :
    Inside (pairsText pairs) := by
  refine flatMap fun p hp => ?_
  have hvalue := quoted (not_mem_escaped (by decide) p.2.toList)
  have hblank : Inside [' '] := singleton (by decide) (by decide)
  have hequals : Inside ['='] := singleton (by decide) (by decide)
  rw [toList_attributeText]
  exact hblank.append ((isKey (h p hp)).append (hequals.append hvalue))

/-- A tag ends at the bracket behind it. -/
theorem tagEnd?_eq (h : Inside front) (rest : List Char) :
    tagEnd? none (front ++ '>' :: rest) = some (front, rest) := by
  rw [h, tagEnd?]
  simp

end Inside

/-! ## Tags -/

section Tags

variable {name : String} {pairs : List (String × String)}

/-- The content of a tag that opens an element. -/
def openingText (name : String) (pairs : List (String × String)) : List Char :=
  name.toList ++ pairsText pairs

theorem inside_openingText (hname : IsKey name) (hpairs : ∀ p ∈ pairs, IsKey p.1) :
    Inside (openingText name pairs) :=
  (Inside.isKey hname).append (Inside.pairsText hpairs)

/-- The name of a tag ends where its attributes begin. -/
theorem span_openingText (hname : IsKey name) (pairs : List (String × String)) :
    (openingText name pairs).takeWhile (!isMarkupBlank ·) = name.toList ∧
      (openingText name pairs).dropWhile (!isMarkupBlank ·) = pairsText pairs := by
  have hplain : ∀ c ∈ name.toList, (!isMarkupBlank c) = true := fun c hc => by
    rw [isMarkupBlank_of_isKeyChar (hname.plain c hc)]
    rfl
  cases pairs with
  | nil =>
    rw [openingText, pairsText, List.flatMap_nil, List.append_nil]
    exact ⟨takeWhile_of_forall hplain, dropWhile_of_forall hplain⟩
  | cons p pairs =>
    have hpairs : ∃ tail, pairsText (p :: pairs) = ' ' :: tail := by
      rw [pairsText, List.flatMap_cons]
      exact ⟨_, by rw [toList_attributeText, List.cons_append]⟩
    obtain ⟨tail, htail⟩ := hpairs
    rw [openingText, htail]
    exact ⟨takeWhile_append_cons hplain (by decide) _, dropWhile_append_cons hplain (by decide) _⟩

/-- A tag that opens an element does not end as one for an empty element does. -/
theorem getLast?_openingText (hname : IsKey name) :
    (openingText name pairs).getLast? ≠ some '/' := by
  rcases List.eq_nil_or_concat pairs with rfl | ⟨front, p, rfl⟩
  · intro hlast
    rw [openingText, pairsText, List.flatMap_nil, List.append_nil] at hlast
    exact ne_of_isKeyChar (hname.plain '/' (List.mem_of_getLast? hlast)) (by decide) rfl
  · have hlast : (openingText name (front.concat p)).getLast? = some '"' := by
      rw [openingText, pairsText, List.concat_eq_append, List.flatMap_append,
        List.flatMap_singleton, toList_attributeText]
      simp [List.getLast?_cons]
    rw [hlast]
    decide

theorem head?_openingText (hname : IsKey name) (pairs : List (String × String)) :
    ∃ c cs, openingText name pairs = c :: cs ∧ isKeyChar c = true := by
  obtain ⟨c, cs, hlist⟩ := List.exists_cons_of_ne_nil hname.ne_nil
  refine ⟨c, cs ++ pairsText pairs, by rw [openingText, hlist, List.cons_append], ?_⟩
  exact hname.plain c (by rw [hlist]; exact List.mem_cons_self)

theorem tagToken?_opening (hname : IsKey name) (hpairs : ∀ p ∈ pairs, IsKey p.1)
    (opened : List (List Char)) :
    tagToken? opened (openingText name pairs) =
      some (.start name pairs false, name.toList :: opened) := by
  obtain ⟨hspan, hattributes⟩ := span_openingText hname pairs
  have hlast : ((openingText name pairs).getLast? == some '/') = false :=
    beq_false_of_ne (getLast?_openingText hname)
  rw [tagToken?]
  · simp [hlast, hspan, hattributes, attributes?_pairsText hpairs]
  · intro content heq
    obtain ⟨c, cs, hcons, hc⟩ := head?_openingText hname pairs
    rw [hcons, List.cons.injEq] at heq
    exact ne_of_isKeyChar hc (by decide) heq.1

theorem tagToken?_empty (hname : IsKey name) (hpairs : ∀ p ∈ pairs, IsKey p.1)
    (opened : List (List Char)) :
    tagToken? opened (openingText name pairs ++ ['/']) = some (.start name pairs true, opened) := by
  obtain ⟨hspan, hattributes⟩ := span_openingText hname pairs
  rw [tagToken?]
  · simp [hspan, hattributes, attributes?_pairsText hpairs]
  · intro content heq
    obtain ⟨c, cs, hcons, hc⟩ := head?_openingText hname pairs
    rw [hcons, List.cons_append, List.cons.injEq] at heq
    exact ne_of_isKeyChar hc (by decide) heq.1

theorem tagToken?_closing (hname : IsKey name) (opened : List (List Char)) :
    tagToken? (name.toList :: opened) ('/' :: name.toList) = some (.finish, opened) := by
  have hblank : ∀ c ∈ name.toList, isMarkupBlank c = false :=
    fun c hc => isMarkupBlank_of_isKeyChar (hname.plain c hc)
  have hclosing : closingName name.toList = name.toList := by
    rw [closingName]
    split
    · rfl
    · rw [trimRight, dropWhile_eq_self_iff.2, List.reverse_reverse]
      exact fun c hc => hblank c (List.mem_reverse.1 (List.mem_of_mem_head? hc))
  rw [tagToken?, if_pos hclosing]

end Tags

/-! ## Documents -/

/-- The tokens of a text that starts with a bracket. -/
def scanMarkup (opened : List (List Char)) : List Char → List (Except CodecError Token)
  | [] => []
  | _ :: cs =>
    match piece? cs with
    | none => [.error .markup]
    | some (p, rest) =>
      match pieceTokens? opened p with
      | none => [.error .markup]
      | some (tokens, opened) => tokens.map .ok ++ scan opened rest

/-- A text is a run up to the first bracket and what starts there. -/
theorem scan_eq (opened : List (List Char)) (cs : List Char) :
    scan opened cs =
      match textTokens? (cs.takeWhile (· != '<')) with
      | none => [.error .markup]
      | some run => run.map .ok ++ scanMarkup opened (cs.dropWhile (· != '<')) := by
  rw [scan]
  cases textTokens? (cs.takeWhile (· != '<')) with
  | none => rfl
  | some run =>
    refine congrArg (run.map Except.ok ++ ·) ?_
    split
    · rename_i hnil
      rw [hnil]
      rfl
    · rename_i c rest hcons
      rw [hcons]
      split
      · rename_i hpiece
        simp only [scanMarkup, hpiece]
      · rename_i p rest' hpiece
        cases htokens : pieceTokens? opened p with
        | none => simp only [scanMarkup, hpiece, htokens]
        | some next => simp only [scanMarkup, hpiece, htokens]

/-- The line in front of a document, between the first letter of it and its end. -/
def preambleBody : List Char := (preamble.toList.drop 3).dropLast.dropLast

section Scan

variable {name : String} {pairs : List (String × String)} (opened : List (List Char))

theorem scan_nil : scan opened [] = [] := by
  rw [scan_eq]
  rfl

theorem scan_markup (cs : List Char) :
    scan opened ('<' :: cs) = scanMarkup opened ('<' :: cs) := by
  rw [scan_eq]
  rfl

/-- A run of text in front of a bracket gives its tokens. -/
theorem scan_run {run : List Char} (hrun : '<' ∉ run) {tokens : List Token}
    (htokens : textTokens? run = some tokens) (rest : List Char) :
    scan opened (run ++ '<' :: rest) = tokens.map .ok ++ scan opened ('<' :: rest) := by
  have hall := bne_of_not_mem hrun
  have hstop : ('<' != '<') = false := by decide
  rw [scan_eq, takeWhile_append_cons hall hstop, dropWhile_append_cons hall hstop, htokens,
    scan_markup]

/-- A piece of markup at the front of a text gives its tokens. -/
theorem scan_piece {cs rest : List Char} {p : Piece} (hpiece : piece? cs = some (p, rest))
    {tokens : List Token} {opened' : List (List Char)}
    (htokens : pieceTokens? opened p = some (tokens, opened')) :
    scan opened ('<' :: cs) = tokens.map .ok ++ scan opened' rest := by
  simp only [scan_markup, scanMarkup, hpiece, htokens]

theorem piece?_tag {content : List Char} (hinside : Inside content) {c : Char} {cs : List Char}
    (hcons : content = c :: cs) (hbang : c ≠ '!') (hquestion : c ≠ '?') (rest : List Char) :
    piece? (content ++ '>' :: rest) = some (.tag content, rest) := by
  have hend := hinside.tagEnd?_eq rest
  rw [hcons, List.cons_append] at hend ⊢
  rw [piece?, hend]
  · rfl
  all_goals simp [hbang, hquestion]

theorem scan_opening (hname : IsKey name) (hpairs : ∀ p ∈ pairs, IsKey p.1) (rest : List Char) :
    scan opened ('<' :: (openingText name pairs ++ '>' :: rest)) =
      .ok (.start name pairs false) :: scan (name.toList :: opened) rest := by
  obtain ⟨c, cs, hcons, hc⟩ := head?_openingText hname pairs
  have hpiece := piece?_tag (inside_openingText hname hpairs) hcons
    (ne_of_isKeyChar hc (by decide)) (ne_of_isKeyChar hc (by decide)) rest
  have htoken : pieceTokens? opened (.tag (openingText name pairs)) =
      some ([.start name pairs false], name.toList :: opened) := by
    rw [pieceTokens?, tagToken?_opening hname hpairs]
    rfl
  exact scan_piece opened hpiece htoken

theorem scan_empty (hname : IsKey name) (hpairs : ∀ p ∈ pairs, IsKey p.1) (rest : List Char) :
    scan opened ('<' :: (openingText name pairs ++ '/' :: '>' :: rest)) =
      .ok (.start name pairs true) :: scan opened rest := by
  obtain ⟨c, cs, hcons, hc⟩ := head?_openingText hname pairs
  have hinside := (inside_openingText hname hpairs).append
    (.singleton (c := '/') (by decide) (by decide))
  have hpiece := piece?_tag hinside (by rw [hcons, List.cons_append])
    (ne_of_isKeyChar hc (by decide)) (ne_of_isKeyChar hc (by decide)) rest
  rw [List.append_assoc, List.singleton_append] at hpiece
  have htoken : pieceTokens? opened (.tag (openingText name pairs ++ ['/'])) =
      some ([.start name pairs true], opened) := by
    rw [pieceTokens?, tagToken?_empty hname hpairs]
    rfl
  exact scan_piece opened hpiece htoken

theorem scan_closing (hname : IsKey name) (rest : List Char) :
    scan (name.toList :: opened) ('<' :: '/' :: (name.toList ++ '>' :: rest)) =
      .ok .finish :: scan opened rest := by
  have hinside : Inside ('/' :: name.toList) :=
    (Inside.singleton (by decide) (by decide)).append (Inside.isKey hname)
  have hpiece := piece?_tag hinside rfl (by decide) (by decide) rest
  have htoken : pieceTokens? (name.toList :: opened) (.tag ('/' :: name.toList)) =
      some ([.finish], opened) := by
    rw [pieceTokens?, tagToken?_closing hname]
    rfl
  exact scan_piece _ hpiece htoken

/-- A run of text in front of a tag is read back, if it has no blanks at its ends. -/
theorem scan_text {text : String} (hne : text ≠ "")
    (htrim : trimBy isMarkupBlank text.toList = text.toList) (rest : List Char) :
    scan opened ((escape text).toList ++ '<' :: rest) =
      .ok (.text text) :: scan opened ('<' :: rest) := by
  have hrun : '<' ∉ (escape text).toList := by
    rw [toList_escape]
    exact not_mem_escaped (by decide) _
  have htoken : textTokens? (escape text).toList = some [.text text] := by
    rw [textTokens?, toList_escape, trimBy_escaped htrim]
    split
    · rename_i hnil
      -- Only the empty text is escaped to nothing.
      have hread := unescape?_escaped text.toList
      rw [hnil, unescape?, Option.some.injEq] at hread
      exact absurd (String.toList_eq_nil_iff.1 hread.symm) hne
    · rw [unescape?_escaped, Option.map_some, String.ofList_toList]
  exact scan_run opened hrun htoken rest

/-- A stretch ends where the first character of the stop stands for the first time. -/
theorem cut?_append {front : List Char} {c : Char} (h : c ∉ front) (stop rest : List Char) :
    cut? (c :: stop) (front ++ (c :: stop ++ rest)) = some (front, rest) := by
  induction front with
  | nil => simp [cut?]
  | cons d front ih =>
    obtain ⟨hd, hfront⟩ := not_or.1 (mt List.mem_cons.2 h)
    rw [List.cons_append, cut?, ih hfront]
    simp [List.isPrefixOf, hd]

/-- The line in front of a document is no token. -/
theorem scan_preamble (rest : List Char) :
    scan opened (preamble.toList ++ rest) = scan opened rest := by
  have hlist : preamble.toList = '<' :: '?' :: 'x' :: (preambleBody ++ ['?', '>']) := by decide
  have hbody : '?' ∉ 'x' :: preambleBody := by decide
  have hpiece : piece? ('?' :: 'x' :: (preambleBody ++ '?' :: '>' :: rest)) =
      some (.skipped, rest) := by
    have hcut := cut?_append hbody ['>'] rest
    simp only [List.cons_append, List.nil_append] at hcut
    rw [piece?]
    · rw [hcut]
      rfl
    · simp
  rw [hlist]
  simp only [List.cons_append, List.append_assoc, List.nil_append]
  exact scan_piece opened hpiece rfl

end Scan

end AppBundle.Xml.Markup
