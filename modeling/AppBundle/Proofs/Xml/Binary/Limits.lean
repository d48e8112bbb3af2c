import AppBundle.Proofs.Reading
import AppBundle.Proofs.Xml.Binary.StringTable

/-!
# What keeps a tree from being written

The strings of a tree are collected before it is written, by a walk of its own,
and looked up while it is written.  `Missed t texts names e` says that `e` is a
lookup that failed in the table `t`, for one of these strings or attribute names.
With any table whatever, a tree is refused for a size or a count that does not fit
its field, or for a lookup of what was collected from it
(`refused_of_nodeChunks`): nothing else is ever looked up.

The table of a tree has all that was collected.  So a tree whose root is an
element is refused for a size or a count or not at all (`isLimit_of_encode`).
-/

namespace AppBundle.Xml

/-- A size or a count that does not fit its field. -/
def CodecError.IsLimit : CodecError → Prop
  | .chunkTooLarge => True
  | .tooManyAttributes _ => True
  | _ => False

namespace Binary

/-! ## Lookups that fail -/

/-- A lookup that failed, for one of these strings or one of these attribute names. -/
inductive Missed (t : StringTable) (texts : List String) (names : List IdentifiedName) :
    CodecError → Prop where
  /-- One of the strings is not in the table. -/
  | string {text : String} (hlisted : text ∈ texts) (hmissing : text ∉ t.others) :
    Missed t texts names (.unlistedString text)
  /-- One of the attribute names is not in the table. -/
  | name {name : IdentifiedName} (hlisted : name ∈ names) (hmissing : name ∉ t.identified) :
    Missed t texts names (.unlistedAttribute name.name)

/-- A fault of size, or a lookup that failed. -/
def Refused (t : StringTable) (texts : List String) (names : List IdentifiedName)
    (e : CodecError) : Prop :=
  e.IsLimit ∨ Missed t texts names e

/-- A table that has these strings and these attribute names. -/
structure StringTable.Covers (t : StringTable) (texts : List String)
    (names : List IdentifiedName) : Prop where
  /-- Each string is in the table. -/
  texts_subset : texts ⊆ t.others
  /-- Each attribute name is in the table. -/
  names_subset : names ⊆ t.identified

variable {t : StringTable} {texts texts' : List String} {names names' : List IdentifiedName}
  {e : CodecError}

theorem Missed.mono (h : Missed t texts names e) (htexts : texts ⊆ texts')
    (hnames : names ⊆ names') : Missed t texts' names' e := by
  cases h with
  | string hlisted hmissing => exact .string (htexts hlisted) hmissing
  | name hlisted hmissing => exact .name (hnames hlisted) hmissing

theorem Refused.mono (h : Refused t texts names e) (htexts : texts ⊆ texts')
    (hnames : names ⊆ names') : Refused t texts' names' e :=
  h.imp_right fun h => h.mono htexts hnames

theorem StringTable.Covers.mono (h : t.Covers texts' names') (htexts : texts ⊆ texts')
    (hnames : names ⊆ names') : t.Covers texts names :=
  ⟨List.Subset.trans htexts h.texts_subset, List.Subset.trans hnames h.names_subset⟩

/-- No lookup fails in a table that has what is looked up. -/
theorem StringTable.Covers.not_missed (ht : t.Covers texts names) : ¬ Missed t texts names e := by
  intro h
  cases h with
  | string hlisted hmissing => exact hmissing (ht.texts_subset hlisted)
  | name hlisted hmissing => exact hmissing (ht.names_subset hlisted)

/-- A part that can be refused for a lookup alone is written with a table that has all. -/
theorem StringTable.Covers.ok {α : Type} {part : Except CodecError α} (ht : t.Covers texts names)
    (h : ∀ e, part = .error e → Missed t texts names e) : ∃ a, part = .ok a := by
  cases part with
  | ok a => exact ⟨a, rfl⟩
  | error e => exact absurd (h e rfl) ht.not_missed

/-- The table of a tree has what was collected from it. -/
theorem covers_ofNode (n : Node) :
    (StringTable.ofNode n).Covers (nodeStrings n) (identifiedNames n) :=
  ⟨fun _ => List.mem_eraseDups.2, fun _ => OrderedSet.mem_ofList.2⟩

/-! ## Single lookups -/

theorem missed_of_index? {text : String} (htext : text ∈ texts) (h : t.index? text = .error e) :
    Missed t texts names e := by
  simp only [StringTable.index?] at h
  split at h
  · cases h
  · rename_i hnone
    cases h
    exact .string htext (List.idxOf?_eq_none_iff.1 hnone)

theorem missed_of_indexOrNone? {text : String} (htext : nonEmpty text ⊆ texts)
    (h : t.indexOrNone? text = .error e) : Missed t texts names e := by
  simp only [StringTable.indexOrNone?] at h
  split at h
  · cases h
  · rename_i hne
    rw [nonEmpty, if_neg hne] at htext
    exact missed_of_index? (htext (List.mem_singleton_self text)) h

/-- The name of an attribute is looked up among the strings unless it has an id. -/
theorem missed_of_nameIndex? {a : Attribute} (hnone : a.resourceId = none → a.name ∈ texts)
    (hsome : ∀ id, a.resourceId = some id → ⟨id, a.name⟩ ∈ names)
    (h : t.nameIndex? a = .error e) : Missed t texts names e := by
  simp only [StringTable.nameIndex?] at h
  split at h
  · exact missed_of_index? (hnone ‹_›) h
  · rename_i id hid
    split at h
    · cases h
    · rename_i hmissing
      cases h
      exact .name (hsome id hid) (List.idxOf?_eq_none_iff.1 hmissing)

/-! ## Attributes and names of elements -/

theorem missed_of_valueFields {a : Attribute} (ha : valueStrings a ⊆ texts)
    (h : valueFields t a = .error e) : Missed t texts names e := by
  obtain ⟨namespaceUri, name, resourceId, raw, item⟩ := a
  cases item with
  | none =>
    rcases Step.error_of_bind h with h | ⟨i, -, h⟩
    · exact missed_of_index? (ha List.mem_cons_self) h
    · cases h
  | some item =>
    cases item with
    | string text =>
      rcases Step.error_of_bind h with h | ⟨i, -, h⟩
      · exact missed_of_indexOrNone? (List.subset_of_cons_subset ha) h
      rcases Step.error_of_bind h with h | ⟨j, -, h⟩
      · exact missed_of_index? (ha List.mem_cons_self) h
      · cases h
    | boolean value => cases h
    | decimal value => cases h
    | hex value => cases h
    | reference id name => cases h
    | primitive dataType data => cases h

/-- The attribute names with an id that a start tag has. -/
def tagNames (tag : Tag) : List IdentifiedName :=
  tag.attributes.filterMap fun a => a.resourceId.map fun id => ⟨id, a.name⟩

variable {tag : Tag}

/-- The strings of an attribute are strings of its start tag. -/
theorem attributeStrings_subset {a : Attribute} (ha : a ∈ tag.attributes) :
    attributeStrings a ⊆ tagStrings tag := fun _ htext =>
  List.mem_append_right _ (List.mem_flatMap.2 ⟨a, ha, htext⟩)

/-- The strings of a declaration are strings of its start tag. -/
theorem mem_tagStrings_of_mem_declarations {d : Declaration} (hd : d ∈ tag.declarations) :
    d.pfx ∈ tagStrings tag ∧ d.uri ∈ tagStrings tag := by
  simp only [tagStrings, List.mem_append, List.mem_flatMap]
  exact ⟨.inl (.inl (.inl ⟨d, hd, by simp⟩)), .inl (.inl (.inl ⟨d, hd, by simp⟩))⟩

theorem mem_tagNames {a : Attribute} (ha : a ∈ tag.attributes) {id : UInt32}
    (hid : a.resourceId = some id) : ⟨id, a.name⟩ ∈ tagNames tag :=
  List.mem_filterMap.2 ⟨a, ha, by rw [hid]; rfl⟩

theorem missed_of_attributeBytes {a : Attribute} (ha : a ∈ tag.attributes)
    (h : attributeBytes t a = .error e) : Missed t (tagStrings tag) (tagNames tag) e := by
  have hstrings := attributeStrings_subset ha
  simp only [attributeStrings, List.append_subset] at hstrings
  obtain ⟨⟨huri, hname⟩, hvalue⟩ := hstrings
  rcases Step.error_of_bind h with h | ⟨v, -, h⟩
  · exact missed_of_valueFields hvalue h
  rcases Step.error_of_bind h with h | ⟨i, -, h⟩
  · exact missed_of_indexOrNone? huri h
  rcases Step.error_of_bind h with h | ⟨j, -, h⟩
  · refine missed_of_nameIndex? (fun hnone => hname ?_) (fun id => mem_tagNames ha) h
    simp [hnone]
  · cases h

theorem missed_of_tagName (h : tagName t tag = .error e) :
    Missed t (tagStrings tag) (tagNames tag) e := by
  rcases Step.error_of_bind h with h | ⟨i, -, h⟩
  · refine missed_of_indexOrNone? (fun text htext => ?_) h
    simp [tagStrings, htext]
  rcases Step.error_of_bind h with h | ⟨j, -, h⟩
  · refine missed_of_index? ?_ h
    simp [tagStrings]
  · cases h

/-! ## Chunks -/

theorem isLimit_of_chunk {kind header : Nat} {content : Bytes}
    (h : chunk kind header content = .error e) : e.IsLimit := by
  simp only [chunk] at h
  split at h
  · cases h
  · cases h
    exact trivial

theorem refused_of_namespaceChunk {kind : Nat} {d : Declaration} (hd : d ∈ tag.declarations)
    (h : namespaceChunk kind t d = .error e) : Refused t (tagStrings tag) (tagNames tag) e := by
  obtain ⟨hpfx, huri⟩ := mem_tagStrings_of_mem_declarations hd
  rcases Step.error_of_bind h with h | ⟨i, -, h⟩
  · exact .inr (missed_of_index? hpfx h)
  rcases Step.error_of_bind h with h | ⟨j, -, h⟩
  · exact .inr (missed_of_index? huri h)
  · exact .inl (isLimit_of_chunk h)

/-- The starts or the ends of the declarations of an element, in any order. -/
theorem refused_of_declarations {kind : Nat} {ds : List Declaration} (hds : ds ⊆ tag.declarations)
    (h : ds.mapM (namespaceChunk kind t) = .error e) :
    Refused t (tagStrings tag) (tagNames tag) e := by
  obtain ⟨d, hd, h⟩ := Step.error_of_mapM h
  exact refused_of_namespaceChunk (hds hd) h

theorem refused_of_startChunks (h : startChunks t tag = .error e) :
    Refused t (tagStrings tag) (tagNames tag) e := by
  rcases Step.error_of_bind h with h | ⟨declarations, -, h⟩
  · exact refused_of_declarations (List.Subset.refl _) h
  rcases Step.error_of_bind h with h | ⟨name, -, h⟩
  · exact .inr (missed_of_tagName h)
  rcases Step.error_of_bind h with h | ⟨rows, -, h⟩
  · obtain ⟨a, ha, h⟩ := Step.error_of_mapM h
    exact .inr (missed_of_attributeBytes ha h)
  split at h
  · cases h
    exact .inl trivial
  rcases Step.error_of_bind h with h | ⟨start, -, h⟩
  · exact .inl (isLimit_of_chunk h)
  · cases h

theorem refused_of_endChunks (h : endChunks t tag = .error e) :
    Refused t (tagStrings tag) (tagNames tag) e := by
  rcases Step.error_of_bind h with h | ⟨name, -, h⟩
  · exact .inr (missed_of_tagName h)
  rcases Step.error_of_bind h with h | ⟨close, -, h⟩
  · exact .inl (isLimit_of_chunk h)
  rcases Step.error_of_bind h with h | ⟨declarations, -, h⟩
  · exact refused_of_declarations (fun d hd => List.mem_reverse.1 hd) h
  · cases h

theorem refused_of_textChunk {text : String} (h : textChunk t text = .error e) :
    Refused t [text] [] e := by
  rcases Step.error_of_bind h with h | ⟨i, -, h⟩
  · exact .inr (missed_of_index? List.mem_cons_self h)
  · exact .inl (isLimit_of_chunk h)

/-! ## Trees -/

/-- The attribute names with an id that a list of trees has. -/
def nodesNames (ns : List Node) : List IdentifiedName :=
  (Node.elementsAll ns).flatMap fun e => tagNames e.toTag

theorem identifiedNames_element (children : List Node) :
    identifiedNames (.element tag children) = tagNames tag ++ nodesNames children := rfl

theorem nodesNames_cons (n : Node) (ns : List Node) :
    nodesNames (n :: ns) = identifiedNames n ++ nodesNames ns := by
  rw [nodesNames, Node.elementsAll, List.flatMap_append]
  rfl

mutual

/-- A tree is refused for a size or a count, or for a lookup of what was collected from it. -/
theorem refused_of_nodeChunks : ∀ {n : Node}, nodeChunks t n = .error e →
    Refused t (nodeStrings n) (identifiedNames n) e
  | .text text, h => by
    rw [nodeChunks] at h
    exact refused_of_textChunk h
  | .element tag children, h => by
    rw [nodeChunks] at h
    rw [nodeStrings, identifiedNames_element]
    have hstrings := List.subset_append_left (tagStrings tag) (nodesStrings children)
    have hnames := List.subset_append_left (tagNames tag) (nodesNames children)
    rcases Step.error_of_bind h with h | ⟨start, -, h⟩
    · exact (refused_of_startChunks h).mono hstrings hnames
    rcases Step.error_of_bind h with h | ⟨inner, -, h⟩
    · exact (refused_of_nodesChunks h).mono (List.subset_append_right _ _)
        (List.subset_append_right _ _)
    rcases Step.error_of_bind h with h | ⟨close, -, h⟩
    · exact (refused_of_endChunks h).mono hstrings hnames
    · cases h

theorem refused_of_nodesChunks : ∀ {ns : List Node}, nodesChunks t ns = .error e →
    Refused t (nodesStrings ns) (nodesNames ns) e
  | [], h => by cases h
  | n :: ns, h => by
    rw [nodesChunks] at h
    rw [nodesStrings, nodesNames_cons]
    rcases Step.error_of_bind h with h | ⟨first, -, h⟩
    · exact (refused_of_nodeChunks h).mono (List.subset_append_left _ _)
        (List.subset_append_left _ _)
    rcases Step.error_of_bind h with h | ⟨rest, -, h⟩
    · exact (refused_of_nodesChunks h).mono (List.subset_append_right _ _)
        (List.subset_append_right _ _)
    · cases h

end

/-- A tree whose root is an element is refused for a size or a count, or not at all. -/
theorem isLimit_of_encode {n : Node} (hn : n.element?.isSome) (h : encode n = .error e) :
    e.IsLimit := by
  cases n with
  | text text => cases hn
  | element tag children =>
    rcases Step.error_of_bind h with h | ⟨pool, -, h⟩
    · simp only [poolChunk] at h
      exact isLimit_of_chunk h
    rcases Step.error_of_bind h with h | ⟨ids, -, h⟩
    · simp only [resourceMapChunk] at h
      split at h
      · cases h
      · exact isLimit_of_chunk h
    rcases Step.error_of_bind h with h | ⟨tree, -, h⟩
    · exact (refused_of_nodeChunks h).resolve_right (covers_ofNode _).not_missed
    · exact isLimit_of_chunk h

end Binary

end AppBundle.Xml
