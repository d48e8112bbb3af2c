import AppBundle.Proofs.Xml.Binary.Row
import AppBundle.Proofs.Xml.Binary.StringTable
import AppBundle.Proofs.Xml.Canonical

/-!
# Written start tags are read back

The fields of an attribute are two indices for its name and three fields for its
value.  The value of a canonical attribute is read back from its fields
(`setValue_of_valueFields`), and with the lookups of the string table so is the
whole attribute (`readAttribute_append`).  The attributes of an element stand
one after the other in its chunk, each at its own distance from the header, and
as no two have the same name none takes the place of another
(`startedElement_of_holds`).
-/

namespace AppBundle.Xml.Binary

variable {t : StringTable}

/-! ## Values -/

theorem require_of_get? {pool : StringPool} {use : StringUse} {index : Word} {text : String}
    (h : pool.get? index = some text) : pool.require use index = .ok text := by
  simp only [StringPool.require, h]

theorem get?_noIndexNat (pool : StringPool) : pool.get? (UInt32.ofNat noIndexNat) = none := rfl

/-- A type byte fits its field. -/
theorem dataType_lt {a : Attribute} {v : ValueFields} (h : valueFields t a = .ok v) :
    v.dataType < 0x100 := by
  simp only [valueFields] at h
  split at h
  · obtain ⟨i, -, h⟩ := Step.ok_of_bind h
    cases h
    exact (by decide : 0x03 < 0x100)
  · obtain ⟨i, -, h⟩ := Step.ok_of_bind h
    obtain ⟨j, -, h⟩ := Step.ok_of_bind h
    cases h
    exact (by decide : 0x03 < 0x100)
  · cases h
    exact (by decide : 0x12 < 0x100)
  · cases h
    exact (by decide : 0x10 < 0x100)
  · cases h
    exact (by decide : 0x11 < 0x100)
  · cases h
    exact (by decide : 0x01 < 0x100)
  · cases h
    exact UInt8.toNat_lt _

/-- A type byte without a case of its own makes a value of another kind. -/
theorem setValue_primitive (pool : StringPool) (a : Attribute) {dataType : UInt8} (data : Word)
    (h : dataType ∉ Item.ownTypes) :
    setValue pool a none dataType.toNat data = .ok (a.setItem (.primitive dataType data)) := by
  have hne : ∀ own ∈ Item.ownTypes, dataType.toNat ≠ own.toNat := by
    intro own hown heq
    rw [UInt8.toNat_inj.1 heq] at h
    exact h hown
  simp only [Item.ownTypes, List.forall_mem_cons, UInt8.reduceToNat] at hne
  obtain ⟨h0, h1, h3, h10, h11, h12, -⟩ := hne
  simp only [setValue, UInt8.ofNat_toNat]

/-- The value of a canonical attribute is read back from its fields. -/
theorem setValue_of_valueFields (ht : t.Small) {a : Attribute} (ha : a.Canonical)
    {v : ValueFields} (h : valueFields t a = .ok v) :
    setValue t.pool { namespaceUri := a.namespaceUri, name := a.name, resourceId := a.resourceId }
      (t.pool.get? (UInt32.ofNat v.raw)) v.dataType (UInt32.ofNat v.data) = .ok a := by
  have hfits := ha.fitsRaw
  obtain ⟨namespaceUri, name, resourceId, raw, item⟩ := a
  simp only at hfits
  cases item with
  | none =>
    obtain ⟨i, hi, h⟩ := Step.ok_of_bind h
    cases h
    have hget := StringTable.get?_of_index? ht hi
    simp only [setValue, hget]
    rw [Step.bind_ok _ (require_of_get? hget)]
    simp [Attribute.setText, pure, Except.pure]
  | some item =>
    replace hfits := hfits item rfl
    cases item with
    | string text =>
      obtain ⟨i, hi, h⟩ := Step.ok_of_bind h
      obtain ⟨j, hj, h⟩ := Step.ok_of_bind h
      cases h
      simp only [setValue, StringTable.get?_of_indexOrNone? ht hi]
      rw [Step.bind_ok _ (require_of_get? (StringTable.get?_of_index? ht hj))]
      by_cases hempty : raw = ""
      · simp [hempty, Attribute.setCompiledText, pure, Except.pure]
      · -- Raw text that differs from the compiled text stays beside it.
        have hne : ¬ raw = text := fun heq => hfits.resolve_left hempty heq.symm
        simp [hempty, hne, Attribute.setCompiledText, Attribute.setText, pure, Except.pure]
    | boolean value =>
      cases h
      cases hfits
      cases value with
      | false => rfl
      | true => rfl
    | decimal value =>
      cases h
      cases hfits
      simp only [setValue, get?_noIndexNat, UInt32.ofNat_toNat]
      rfl
    | hex value =>
      cases h
      cases hfits
      simp only [setValue, get?_noIndexNat, UInt32.ofNat_toNat]
      rfl
    | reference id symbol =>
      cases h
      obtain ⟨rfl, rfl⟩ := hfits
      simp only [setValue, get?_noIndexNat, UInt32.ofNat_toNat]
      rfl
    | primitive dataType data =>
      cases h
      obtain ⟨rfl, hown⟩ := hfits
      simp only [get?_noIndexNat, UInt32.ofNat_toNat]
      exact setValue_primitive _ _ _ hown

/-! ## Attributes -/

/-- An attribute takes twenty bytes. -/
theorem length_attributeBytes {a : Attribute} {bs : Bytes} (h : attributeBytes t a = .ok bs) :
    bs.length = attributeSize := by
  obtain ⟨v, -, h⟩ := Step.ok_of_bind h
  obtain ⟨i, -, h⟩ := Step.ok_of_bind h
  obtain ⟨j, -, h⟩ := Step.ok_of_bind h
  cases h
  simp only [typedValue, List.length_append, Bytes.length_ofNat, List.length_singleton]
  rfl

/-- A canonical attribute is read back, whatever follows it. -/
theorem readAttribute_append (ht : t.Small) {a : Attribute} (ha : a.Canonical) {bs : Bytes}
    (h : attributeBytes t a = .ok bs) (rest : Bytes) :
    readAttribute t.pool t.resourceIds (bs ++ rest) = .ok (a, rest) := by
  obtain ⟨v, hv, h⟩ := Step.ok_of_bind h
  obtain ⟨i, hi, h⟩ := Step.ok_of_bind h
  obtain ⟨j, hj, h⟩ := Step.ok_of_bind h
  cases h
  have hvalue := setValue_of_valueFields ht ha hv
  simp only [typedValue, List.append_assoc]
  rw [readAttribute, Reader.bind_ok (word_append _ _), Reader.bind_ok (word_append _ _),
    Reader.bind_ok (word_append _ _), Reader.bind_ok (half_append (by decide) _),
    if_neg (by decide)]
  show (byte >>= fun _ => byte >>= _) (Bytes.ofNat 1 0 ++ _) = _
  rw [Reader.bind_ok (byte_append (by decide) _),
    Reader.bind_ok (byte_append (dataType_lt hv) _), Reader.bind_ok (word_append _ _),
    Reader.bind_ok (Reader.lift_ok (require_of_get? (StringTable.get?_of_nameIndex? ht hj))),
    StringTable.getD_of_indexOrNone? ht hi,
    StringTable.resourceId?_of_nameIndex? ht ha.resourceId_ne hj]
  exact Reader.lift_ok hvalue

/-! ## Start tags -/

/-- The first bytes of the content of an element: its name and where its attributes are. -/
def startHeader (name : Bytes) (count : Nat) : Bytes :=
  name ++ Bytes.ofNat 2 20 ++ Bytes.ofNat 2 20 ++ Bytes.ofNat 2 count ++ Bytes.ofNat 2 0 ++
    Bytes.ofNat 2 0 ++ Bytes.ofNat 2 0

theorem length_tagName {tag : Tag} {name : Bytes} (h : tagName t tag = .ok name) :
    name.length = 8 := by
  obtain ⟨i, -, h⟩ := Step.ok_of_bind h
  obtain ⟨j, -, h⟩ := Step.ok_of_bind h
  cases h
  rfl

/-- The fields of a start tag are read back. -/
theorem readElementStart_append (ht : t.Small) {tag : Tag} {name : Bytes}
    (h : tagName t tag = .ok name) {count : Nat} (hcount : count < 0x10000) (rest : Bytes) :
    ∃ after, readElementStart t.pool (startHeader name count ++ rest) =
      .ok (⟨tag.namespaceUri, tag.name, 20, 20, count⟩, after) := by
  obtain ⟨i, hi, h⟩ := Step.ok_of_bind h
  obtain ⟨j, hj, h⟩ := Step.ok_of_bind h
  cases h
  simp only [startHeader, List.append_assoc]
  refine ⟨Bytes.ofNat 2 0 ++ (Bytes.ofNat 2 0 ++ (Bytes.ofNat 2 0 ++ rest)), ?_⟩
  rw [readElementStart, Reader.bind_ok (word_append _ _), Reader.bind_ok (word_append _ _),
    Reader.bind_ok (Reader.lift_ok (require_of_get? (StringTable.get?_of_index? ht hj))),
    Reader.bind_ok (half_append (by decide) _), Reader.bind_ok (half_append (by decide) _),
    Reader.bind_ok (half_append hcount _), if_neg (by decide),
    StringTable.getD_of_indexOrNone? ht hi]
  rfl

/-- What a reader knows of the strings once the pool and the resource map are behind it. -/
structure State.Knows (s : State) (t : StringTable) : Prop where
  /-- The pool was read. -/
  pool_eq : s.pool = some t.pool
  /-- The resource map was read. -/
  resourceIds_eq : s.resourceIds = t.resourceIds

/-- The attributes of an element are read one after the other.  The bytes in
front are the start of the content and the attributes that were read before. -/
theorem foldlM_attributes (ht : t.Small) {c : Chunk} {kind : Nat} {e : Element}
    {todo : List Attribute} (hcanonical : ∀ a ∈ todo, a.Canonical) (done : List Attribute)
    (hnodup : ((done ++ todo).map (·.fullName)).Nodup) {front : Bytes}
    (hfront : front.length = 20 + done.length * 20) {rows : List Bytes}
    (hrows : todo.mapM (attributeBytes t) = .ok rows) (hc : c.Holds kind (front ++ rows.flatten)) :
    (List.range' done.length todo.length).foldlM (fun e i => do
      let bs ← c.seek (c.headerSize + 20 + i * 20)
      let (a, _) ← readAttribute t.pool t.resourceIds bs
      return e.insert a) { e with attributes := done } =
      .ok { e with attributes := done ++ todo } := by
  induction todo generalizing done front rows with
  | nil =>
    rw [List.append_nil]
    rfl
  | cons a as ih =>
    obtain ⟨row, rows, hrow, hrest, rfl⟩ := Step.mapM_cons_ok hrows
    obtain ⟨tail, hseek⟩ := hc.seek
    rw [hfront, ← Nat.add_assoc, List.flatten_cons, List.append_assoc] at hseek
    have hread := readAttribute_append ht (hcanonical a List.mem_cons_self) hrow
      (rows.flatten ++ tail)
    have hnew : a.fullName ∉ done.map (·.fullName) := by
      intro hmem
      rw [List.map_append, List.map_cons] at hnodup
      exact (List.nodup_append.1 hnodup).2.2 _ hmem _ List.mem_cons_self rfl
    have hinsert := Element.insert_of_new (e := { e with attributes := done }) hnew
    have hfront' : (front ++ row).length = 20 + (done ++ [a]).length * 20 := by
      rw [List.length_append, hfront, length_attributeBytes hrow, List.length_append,
        List.length_singleton, attributeSize]
      omega
    have hgo := ih (fun b hb => hcanonical b (List.mem_cons_of_mem _ hb)) (done ++ [a])
      (by rwa [List.append_assoc]) hfront' hrest (by rwa [List.append_assoc])
    rw [List.length_append, List.length_singleton, List.append_assoc] at hgo
    rw [List.length_cons, List.range'_succ, List.foldlM_cons, Step.bind_ok _ hseek,
      Step.bind_ok _ hread]
    show (pure (Element.insert _ a) >>= _) = _
    rw [hinsert]
    exact hgo

/-- A canonical start tag is read back, after its declarations. -/
theorem startedElement_of_holds (ht : t.Small) {tag : Tag} (htag : tag.Canonical) {name : Bytes}
    (hname : tagName t tag = .ok name) {rows : List Bytes}
    (hrows : tag.attributes.mapM (attributeBytes t) = .ok rows) (hcount : rows.length < 0x10000)
    {s : State} (hs : s.Knows t) (hpending : s.pending = tag.declarations) {c : Chunk}
    (hc : c.Holds startElementKind (startHeader name rows.length ++ rows.flatten)) :
    startedElement t.pool s c = .ok ⟨tag, []⟩ := by
  obtain ⟨tail, hbody⟩ := hc.body_eq
  obtain ⟨after, hstart⟩ := readElementStart_append ht hname hcount (rows.flatten ++ tail)
  rw [List.append_assoc] at hbody
  rw [← hbody] at hstart
  have hlength := Step.length_of_mapM hrows
  have hfront : (startHeader name rows.length).length = 20 + ([] : List Attribute).length * 20 := by
    simp only [startHeader, List.length_append, Bytes.length_ofNat, length_tagName hname,
      List.length_nil]
  have hdeclared : s.pending.foldl Element.declare
      ({ namespaceUri := tag.namespaceUri, name := tag.name } : Element) =
      { namespaceUri := tag.namespaceUri, name := tag.name, declarations := tag.declarations,
        attributes := [] } := by
    rw [hpending]
    exact Element.foldl_declare htag.declarations_nodup
  have hread := foldlM_attributes ht
    (e := { namespaceUri := tag.namespaceUri, name := tag.name, declarations := tag.declarations })
    htag.attributes [] htag.names_nodup hfront hrows hc
  rw [startedElement, Step.bind_ok _ hstart]
  show (List.range rows.length).foldlM _ (s.pending.foldl Element.declare _) = _
  rw [hdeclared, hlength, List.range_eq_range', hs.resourceIds_eq]
  exact hread

end AppBundle.Xml.Binary
