import AppBundle.Proofs.Xml.Markup.SimplyScoped

/-!
# Tokens of written trees

Writing a tree gives a row of tokens (`nodeTokens`), and the tokenizer reads
that row back from the text, whatever comes after it (`scan_nodeText`).  Only a
run of text needs to know what comes next: it ends at a bracket, and that there
is one behind it is what keeps two runs apart.
-/

namespace AppBundle.Xml.Markup

/-! ## Tags -/

/-- The key and the value that make a declaration. -/
def declarationPair (d : Declaration) : String × String := (declarationKey d, d.uri)

/-- The key and the value that an attribute is written as. -/
def attributePair (declared : List Declaration) (a : Attribute) : String × String :=
  (qualify declared a.namespaceUri a.name, valueText a)

/-- The keys and values in a tag, within its own declarations. -/
def tagPairs (declared : List Declaration) (tag : Tag) : List (String × String) :=
  tag.declarations.map declarationPair ++ tag.attributes.map (attributePair declared)

/-- The key of a tag, within its own declarations. -/
def tagKey (declared : List Declaration) (tag : Tag) : String :=
  qualify declared tag.namespaceUri tag.name

theorem toList_tagText (declared : List Declaration) (tag : Tag) :
    (tagText declared tag).toList = openingText (tagKey declared tag) (tagPairs declared tag) := by
  rw [tagText, String.toList_append, String.toList_append, String.toList_join, String.toList_join,
    List.flatMap_map, List.flatMap_map, openingText, pairsText, tagPairs, List.flatMap_append,
    List.flatMap_map, List.flatMap_map, List.append_assoc]
  rfl

variable {around : List Declaration} {tag : Tag}

theorem isKey_tagKey (h : tag.SimplyScoped around) : IsKey (tagKey (inForce around tag) tag) :=
  isKey_qualify h.unambiguous h.inScope h.name_plain

theorem isKey_declarationKey {d : Declaration} (h : isPlainName d.pfx = true) :
    IsKey (declarationKey d) := by
  have hxmlns : isPlainName "xmlns" = true := by decide
  rw [declarationKey, if_neg (ne_empty_of_isPlainName h)]
  exact .prefixed hxmlns h

theorem isKey_of_mem_tagPairs (h : tag.SimplyScoped around) :
    ∀ p ∈ tagPairs (inForce around tag) tag, IsKey p.1 := by
  intro p hp
  rcases List.mem_append.1 hp with hp | hp
  · obtain ⟨d, hd, rfl⟩ := List.mem_map.1 hp
    have hmem : d ∈ inForce around tag := List.mem_append_left _ (List.mem_reverse.2 hd)
    exact isKey_declarationKey (h.unambiguous.plain d hmem).1
  · obtain ⟨a, ha, rfl⟩ := List.mem_map.1 hp
    have hattribute := h.attributes a ha
    exact isKey_qualify h.unambiguous hattribute.inScope hattribute.name_plain

/-! ## Trees -/

mutual

/-- The tokens that a tree is written as, among the declarations in force. -/
def nodeTokens (declared : List Declaration) : Node → List Token
  | .element tag children =>
    let declared := inForce declared tag
    .start (tagKey declared tag) (tagPairs declared tag) children.isEmpty ::
      (nodesTokens declared children ++ if children.isEmpty then [] else [.finish])
  | .text s => [.text s]

/-- The tokens that trees in a row are written as. -/
def nodesTokens (declared : List Declaration) : List Node → List Token
  | [] => []
  | n :: ns => nodeTokens declared n ++ nodesTokens declared ns

end

theorem toList_nodeText_empty (around : List Declaration) (tag : Tag) :
    (nodeText around (.element tag [])).toList =
      '<' :: (openingText (tagKey (inForce around tag) tag)
        (tagPairs (inForce around tag) tag) ++ ['/', '>']) := by
  simp [nodeText, toList_tagText]

theorem toList_nodeText_cons (around : List Declaration) (tag : Tag) (n : Node) (ns : List Node) :
    (nodeText around (.element tag (n :: ns))).toList =
      '<' :: (openingText (tagKey (inForce around tag) tag) (tagPairs (inForce around tag) tag) ++
        '>' :: ((nodesText (inForce around tag) (n :: ns)).toList ++
          '<' :: '/' :: ((tagKey (inForce around tag) tag).toList ++ ['>']))) := by
  simp [nodeText, nodesText, toList_tagText, tagKey]

/-- The node is an element, or a bracket comes right behind it. -/
def Bracketed (n : Node) (rest : List Char) : Prop :=
  n.text?.isSome → ∃ cs, rest = '<' :: cs

theorem exists_nodesText {ns : List Node} (h : ∀ m ∈ ns.head?, m.text? = none) (rest : List Char) :
    ∃ cs, (nodesText around ns).toList ++ '<' :: rest = '<' :: cs := by
  cases ns with
  | nil => exact ⟨rest, rfl⟩
  | cons n ns =>
    cases n with
    | text s => cases h (.text s) rfl
    | element tag children =>
      rw [nodesText, String.toList_append]
      cases children with
      | nil =>
        rw [toList_nodeText_empty]
        exact ⟨_, rfl⟩
      | cons child children =>
        rw [toList_nodeText_cons]
        exact ⟨_, rfl⟩

/-- A text that has no blanks at its ends has none of the markup's either. -/
theorem trimBy_of_trim {s : String} (h : Text.trim s = s) :
    Text.trimBy Text.isMarkupBlank s.toList = s.toList := by
  have hlist : Text.trimBy Text.isBlank s.toList = s.toList := by
    rw [← String.toList_ofList (l := Text.trimBy _ _)]
    exact congrArg String.toList h
  obtain ⟨hfirst, hlast⟩ := Text.trimBy_eq_self_iff.1 hlist
  have hblank {c : Char} (hc : Text.isBlank c = false) : Text.isMarkupBlank c = false := by
    cases hmarkup : Text.isMarkupBlank c with
    | false => rfl
    | true => rw [Text.isBlank_of_isMarkupBlank hmarkup] at hc; cases hc
  exact Text.trimBy_eq_self_iff.2
    ⟨fun c hc => hblank (hfirst c hc), fun c hc => hblank (hlast c hc)⟩

mutual

/-- The tokens of a written tree are those that it was written as. -/
theorem scan_nodeText (opened : List (List Char)) :
    ∀ {around : List Declaration} {n : Node}, n.SimplyScoped around →
      ∀ rest, Bracketed n rest →
        scan opened ((nodeText around n).toList ++ rest) =
          (nodeTokens around n).map .ok ++ scan opened rest
  | around, .text s, h, rest, hrest => by
    obtain ⟨cs, rfl⟩ := hrest rfl
    rw [nodeText, scan_text opened h.1 (trimBy_of_trim h.2)]
    rfl
  | around, .element tag [], h, rest, _ => by
    have hread := scan_empty opened (isKey_tagKey h.1) (isKey_of_mem_tagPairs h.1) rest
    rw [toList_nodeText_empty, List.cons_append, List.append_assoc]
    exact hread
  | around, .element tag (child :: children), h, rest, _ => by
    have hkey := isKey_tagKey h.1
    rw [toList_nodeText_cons]
    simp only [List.cons_append, List.append_assoc, List.nil_append]
    rw [scan_opening opened hkey (isKey_of_mem_tagPairs h.1), scan_nodesText _ h.2,
      scan_closing opened hkey]
    simp [nodeTokens]

/-- The tokens of written trees are those that they were written as. -/
theorem scan_nodesText (opened : List (List Char)) :
    ∀ {around : List Declaration} {ns : List Node}, Node.SimplyScopedAll around ns →
      ∀ rest, scan opened ((nodesText around ns).toList ++ '<' :: rest) =
        (nodesTokens around ns).map .ok ++ scan opened ('<' :: rest)
  | around, [], _, rest => rfl
  | around, n :: ns, h, rest => by
    obtain ⟨hn, hapart, hns⟩ := h
    have hrest : Bracketed n ((nodesText around ns).toList ++ '<' :: rest) :=
      fun htext => exists_nodesText (hapart htext) rest
    rw [nodesText, String.toList_append, List.append_assoc, scan_nodeText opened hn _ hrest,
      scan_nodesText opened hns, nodesTokens, List.map_append, List.append_assoc]

end

end AppBundle.Xml.Markup
