import AppBundle.Proofs.Xml.Binary.Element
import AppBundle.Proofs.Xml.Binary.StringPool

/-!
# Documents are read back

Each part of a written tree leads a reader from one state to the next: a
declaration waits for its element, a start tag opens an element, a text run
joins the innermost open element, and an end closes it.  So the chunks of a
list of nodes add these nodes to the innermost open element
(`leads_nodesChunks`), by recursion on the nodes, and the chunks of a whole
document leave its root behind.

`decode_encode_of_canonical` is the result: a canonical tree that can be written
is read back as it was, down to the order of attributes and children.
-/

namespace AppBundle.Xml.Binary

variable {t : StringTable} {s s' : State}

/-! ## Declarations -/

theorem holds_namespaceChunk {kind : Nat} {d : Declaration} {bs : Bytes}
    (h : namespaceChunk kind t d = .ok bs) :
    ∃ i j, t.index? d.pfx = .ok i ∧ t.index? d.uri = .ok j ∧
      nodeChunk kind (Bytes.ofNat 4 i ++ Bytes.ofNat 4 j) = .ok bs := by
  obtain ⟨i, hi, h⟩ := Step.ok_of_bind h
  obtain ⟨j, hj, h⟩ := Step.ok_of_bind h
  exact ⟨i, j, hi, hj, h⟩

/-- The start of a declaration is collected. -/
theorem leads_declaration (ht : t.Small) (hs : s.Knows t) {d : Declaration} {bs : Bytes}
    (h : namespaceChunk startNamespaceKind t d = .ok bs) :
    Leads bs s { s with pending := s.pending ++ [d] } := by
  obtain ⟨i, j, hi, hj, h⟩ := holds_namespaceChunk h
  refine leads_nodeChunk (by decide) h fun c hc => ?_
  obtain ⟨tail, hbody⟩ := hc.body_eq
  have hloaded : s.loaded .declaration = .ok t.pool := by
    rw [State.loaded, hs.pool_eq]
  rw [State.step_startNamespace hc.kind_eq, State.startNamespace, Step.bind_ok _ hloaded, hbody,
    List.append_assoc, Step.bind_ok _ (word_append _ _)]
  simp only
  rw [Step.bind_ok _ (word_append _ _)]
  simp only [StringTable.get?_of_index? ht hi]
  rw [Step.bind_ok _ (require_of_get? (StringTable.get?_of_index? ht hj))]
  rfl

theorem leads_declarations (ht : t.Small) {ds : List Declaration} {rows : List Bytes}
    (h : ds.mapM (namespaceChunk startNamespaceKind t) = .ok rows) {s : State} (hs : s.Knows t) :
    Leads rows.flatten s { s with pending := s.pending ++ ds } := by
  induction ds generalizing rows s with
  | nil =>
    cases h
    rw [List.append_nil]
    exact Leads.nil s
  | cons d ds ih =>
    obtain ⟨row, rows, hrow, hrows, rfl⟩ := Step.mapM_cons_ok h
    have hfirst := leads_declaration ht hs hrow
    have hrest := ih hrows (s := { s with pending := s.pending ++ [d] })
      ⟨hs.pool_eq, hs.resourceIds_eq⟩
    rw [List.append_assoc] at hrest
    exact hfirst.append hrest

/-- The ends of declarations leave no trace. -/
theorem leads_closings {ds : List Declaration} {rows : List Bytes}
    (h : ds.mapM (namespaceChunk endNamespaceKind t) = .ok rows) : Leads rows.flatten s s := by
  induction ds generalizing rows with
  | nil =>
    cases h
    exact Leads.nil s
  | cons d ds ih =>
    obtain ⟨row, rows, hrow, hrows, rfl⟩ := Step.mapM_cons_ok h
    obtain ⟨i, j, -, -, hrow⟩ := holds_namespaceChunk hrow
    have hfirst : Leads row s s :=
      leads_nodeChunk (by decide) hrow fun c hc => State.step_endNamespace hc.kind_eq
    exact hfirst.append (ih hrows)

/-! ## Elements and text runs -/

/-- The start of an element opens it. -/
theorem leads_startChunks (ht : t.Small) (hs : s.Knows t) (hpending : s.pending = []) {tag : Tag}
    (htag : tag.Canonical) {bs : Bytes} (h : startChunks t tag = .ok bs) :
    Leads bs s { s with opened := ⟨tag, []⟩ :: s.opened } := by
  obtain ⟨declarations, hdeclarations, h⟩ := Step.ok_of_bind h
  obtain ⟨name, hname, h⟩ := Step.ok_of_bind h
  obtain ⟨rows, hrows, h⟩ := Step.ok_of_bind h
  by_cases hcount : rows.length ≥ UInt16.size
  · rw [if_pos hcount] at h
    cases h
  · rw [if_neg hcount] at h
    obtain ⟨start, hstart, h⟩ := Step.ok_of_bind h
    cases h
    have hdeclared := leads_declarations ht hdeclarations hs
    rw [hpending, List.nil_append] at hdeclared
    refine hdeclared.append (leads_nodeChunk (by decide) hstart fun c hc => ?_)
    have hloaded : { s with pending := tag.declarations }.loaded .element = .ok t.pool := by
      rw [State.loaded, hs.pool_eq]
    have hstarted := startedElement_of_holds ht htag hname hrows (Nat.lt_of_not_le hcount)
      (s := { s with pending := tag.declarations }) ⟨hs.pool_eq, hs.resourceIds_eq⟩ rfl hc
    rw [State.step_startElement hc.kind_eq, State.startElement, Step.bind_ok _ hloaded,
      Step.bind_ok _ hstarted, ← hpending]
    rfl

/-- The end of an element closes it. -/
theorem leads_endChunks {tag : Tag} {bs : Bytes} (h : endChunks t tag = .ok bs)
    (hs : s.endElement = .ok s') : Leads bs s s' := by
  obtain ⟨name, -, h⟩ := Step.ok_of_bind h
  obtain ⟨close, hclose, h⟩ := Step.ok_of_bind h
  obtain ⟨rows, hrows, h⟩ := Step.ok_of_bind h
  cases h
  have hfirst : Leads close s s' := by
    refine leads_nodeChunk (by decide) hclose fun c hc => ?_
    rw [State.step_endElement hc.kind_eq, hs]
  exact hfirst.append (leads_closings hrows)

/-- A text run joins the innermost open element. -/
theorem leads_textChunk (ht : t.Small) (hs : s.Knows t) {e : Element} {opened : List Element}
    (hopened : s.opened = e :: opened) {text : String} {bs : Bytes}
    (h : textChunk t text = .ok bs) :
    Leads bs s { s with opened := e.pushText text :: opened } := by
  obtain ⟨i, hi, h⟩ := Step.ok_of_bind h
  refine leads_nodeChunk (by decide) h fun c hc => ?_
  obtain ⟨tail, hbody⟩ := hc.body_eq
  have hloaded : s.loaded .text = .ok t.pool := by
    rw [State.loaded, hs.pool_eq]
  rw [State.step_text hc.kind_eq, State.addText, Step.bind_ok _ hloaded, hbody, List.append_assoc,
    Step.bind_ok _ (word_append _ _)]
  simp only
  rw [Step.bind_ok _ (require_of_get? (StringTable.get?_of_index? ht hi)), hopened]
  rfl

/-! ## Trees -/

/-- An element is opened, filled and closed. -/
theorem leads_element (ht : t.Small) (hs : s.Knows t) (hpending : s.pending = []) {tag : Tag}
    (htag : tag.Canonical) {children : List Node} {bs : Bytes}
    (h : nodeChunks t (.element tag children) = .ok bs)
    (hinner : ∀ inner, nodesChunks t children = .ok inner →
      Leads inner { s with opened := ⟨tag, []⟩ :: s.opened }
        { s with opened := ⟨tag, children⟩ :: s.opened })
    (hend : { s with opened := ⟨tag, children⟩ :: s.opened }.endElement = .ok s') :
    Leads bs s s' := by
  rw [nodeChunks] at h
  obtain ⟨start, hstart, h⟩ := Step.ok_of_bind h
  obtain ⟨inner, hchildren, h⟩ := Step.ok_of_bind h
  obtain ⟨close, hclose, h⟩ := Step.ok_of_bind h
  cases h
  have hopen := leads_startChunks ht hs hpending htag hstart
  exact (hopen.append (hinner inner hchildren)).append (leads_endChunks hclose hend)

/-- The chunks of a list of nodes add them to the innermost open element. -/
theorem leads_nodesChunks (ht : t.Small) : ∀ {ns : List Node} {bs : Bytes} {s : State}
    {e : Element} {opened : List Element}, (∀ e ∈ Node.elementsAll ns, e.toTag.Canonical) →
    s.Knows t → s.pending = [] → s.opened = e :: opened → nodesChunks t ns = .ok bs →
    Leads bs s { s with opened := { e with children := e.children ++ ns } :: opened }
  | [], bs, s, e, opened, _, _, _, hopened, h => by
    rw [nodesChunks] at h
    cases h
    rw [List.append_nil, ← hopened]
    exact Leads.nil s
  | .text text :: ns, bs, s, e, opened, hns, hs, hpending, hopened, h => by
    rw [nodesChunks, nodeChunks] at h
    obtain ⟨first, hfirst, h⟩ := Step.ok_of_bind h
    obtain ⟨rest, hrest, h⟩ := Step.ok_of_bind h
    cases h
    have hrestCanonical : ∀ e ∈ Node.elementsAll ns, e.toTag.Canonical := by
      simpa only [Node.elementsAll, Node.elements, List.nil_append] using hns
    have htext := leads_textChunk ht hs hopened hfirst
    have hmore := leads_nodesChunks ht (s := { s with opened := e.pushText text :: opened })
      hrestCanonical
      ⟨hs.pool_eq, hs.resourceIds_eq⟩ hpending rfl hrest
    simp only [Element.pushText, Element.push, List.append_assoc] at htext hmore
    exact htext.append hmore
  | .element tag children :: ns, bs, s, e, opened, hns, hs, hpending, hopened, h => by
    rw [nodesChunks] at h
    obtain ⟨first, hfirst, h⟩ := Step.ok_of_bind h
    obtain ⟨rest, hrest, h⟩ := Step.ok_of_bind h
    cases h
    simp only [Node.elementsAll, Node.elements, List.cons_append, List.forall_mem_cons,
      List.forall_mem_append] at hns
    have hchild : Leads first s { s with opened := e.pushElement ⟨tag, children⟩ :: opened } := by
      refine leads_element ht hs hpending hns.1 hfirst (fun inner hinner => ?_) ?_
      · exact leads_nodesChunks ht (s := { s with opened := ⟨tag, []⟩ :: s.opened }) hns.2.1
          ⟨hs.pool_eq, hs.resourceIds_eq⟩ hpending rfl hinner
      · rw [State.endElement, hopened]
    have hmore := leads_nodesChunks ht
      (s := { s with opened := e.pushElement ⟨tag, children⟩ :: opened }) hns.2.2
      ⟨hs.pool_eq, hs.resourceIds_eq⟩ hpending rfl hrest
    simp only [Element.pushElement, Element.push, List.append_assoc] at hchild hmore
    exact hchild.append hmore

/-! ## Documents -/

/-- The content of a written document is its strings, its resource ids and its
tree, and it leads from nothing to the root. -/
theorem leads_document {tag : Tag} {children : List Node}
    (htags : ∀ e ∈ (Node.element tag children).elements, e.toTag.Canonical) {bs : Bytes}
    (h : encode (.element tag children) = .ok bs) :
    ∃ content s, chunk documentKind 8 content = .ok bs ∧ Leads content {} s ∧
      s.opened = [] ∧ s.root = some ⟨tag, children⟩ := by
  obtain ⟨pool, hpool, h⟩ := Step.ok_of_bind h
  obtain ⟨ids, hids, h⟩ := Step.ok_of_bind h
  obtain ⟨tree, htree, h⟩ := Step.ok_of_bind h
  generalize StringTable.ofNode (.element tag children) = t at hpool hids htree
  have ht := small_of_poolChunk hpool
  simp only [Node.elements, List.forall_mem_cons] at htags
  let loaded : State := { pool := some t.pool, resourceIds := t.resourceIds }
  have hstrings : Leads (pool ++ ids) {} loaded :=
    (leads_poolChunk hpool {}).append (leads_resourceMapChunk hids rfl)
  have hroot : Leads tree loaded { loaded with root := some ⟨tag, children⟩ } := by
    refine leads_element ht ⟨rfl, rfl⟩ rfl htags.1 htree (fun inner hinner => ?_) rfl
    exact leads_nodesChunks ht htags.2 (s := { loaded with opened := [⟨tag, []⟩] }) ⟨rfl, rfl⟩
      rfl rfl hinner
  exact ⟨_, _, h, hstrings.append hroot, rfl, rfl⟩

/-- A written document is read back when all its start tags are canonical. -/
theorem decode_encode_element {tag : Tag} {children : List Node}
    (htags : ∀ e ∈ (Node.element tag children).elements, e.toTag.Canonical) {bs : Bytes}
    (h : encode (.element tag children) = .ok bs) :
    decode bs = .ok (.element tag children) := by
  obtain ⟨content, s, h, hleads, hopened, hroot⟩ := leads_document htags h
  obtain ⟨hbs, -⟩ := chunk_eq h
  have hlength := length_of_chunk h
  rw [padding_of_dvd hleads.dvd_length, List.append_nil] at hlength
  have hread := Chunk.read_append (by decide) ⟨by decide, by decide, by omega⟩ h []
  rw [List.append_nil] at hread
  have hbody : bs.drop 8 = content ++ [] := by
    generalize bs.length = n at hbs
    rw [padding_of_dvd hleads.dvd_length] at hbs
    rw [hbs]
    rfl
  have hwalk : Walk.run? bs bs.length ⟨8, {}⟩ = .ok s := by
    rw [hleads.walk hbody (by omega)]
    exact Walk.run?_of_le (show bs.length ≤ 8 + content.length by omega)
  have hfinish : s.finish = .ok ⟨tag, children⟩ := by
    rw [State.finish, hopened, hroot]
  rw [decode, Step.bind_ok _ hread]
  rw [if_neg (not_not_intro rfl)]
  show (Walk.run? bs bs.length ⟨8, {}⟩ >>= _) = _
  rw [Step.bind_ok _ hwalk, Step.bind_ok _ hfinish]
  rfl

/-- A canonical tree that can be written is read back as it was. -/
theorem decode_encode_of_canonical {n : Node} (hn : n.Canonical) {bs : Bytes}
    (h : encode n = .ok bs) : decode bs = .ok n := by
  cases n with
  | text text => cases hn.isElement
  | element tag children => exact decode_encode_element hn.tags h

/-- A tree in which one name stands with and without a resource id, and compiled
text beside other raw text. -/
def labelledApplication : Node :=
  .element
    { name := "application"
      declarations := [⟨"android", androidUri⟩]
      attributes :=
        [{ namespaceUri := androidUri, name := "label", resourceId := some 0x01010001
           item := some (.reference 0x7f010000 none) },
         { name := "label", raw := "1", item := some (.string "one") }] }
    [.text "label", .element { name := "activity" } []]

theorem decode_encode_labelledApplication :
    ∃ bs, encode labelledApplication = .ok bs ∧ decode bs = .ok labelledApplication := by
  obtain ⟨bs, h⟩ : ∃ bs, encode labelledApplication = .ok bs :=
    Step.ok_of_isOk (by decide +kernel)
  exact ⟨bs, h, decode_encode_of_canonical (by decide +kernel) h⟩

end AppBundle.Xml.Binary
