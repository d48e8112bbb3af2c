import AppBundle.Xml.Edit

/-!
# Start tags at any depth

What is true of every start tag of a tree (`Node.AllTags`) is true of every
child element, and is kept by every edit that keeps it of the tags it makes: a
child put at the end (`Node.AllTags.push`), a child element changed in its place
(`Node.AllTags.alterChild`), all attributes changed (`Node.AllTags.mapAttributes`)
and an element changed at any depth (`Node.AllTags.modifyAt?`).
-/

namespace AppBundle.Xml.Node

/-- All start tags of a tree have a property. -/
def AllTags (P : Tag → Prop) (n : Node) : Prop := ∀ e ∈ n.elements, P e.toTag

instance (P : Tag → Prop) [DecidablePred P] (n : Node) : Decidable (n.AllTags P) :=
  inferInstanceAs (Decidable (∀ e ∈ n.elements, P e.toTag))

variable {P : Tag → Prop} {e : Element}

theorem elementsAll_eq_flatMap (ns : List Node) : elementsAll ns = ns.flatMap elements := by
  induction ns with
  | nil => rfl
  | cons n ns ih => rw [elementsAll, List.flatMap_cons, ih]

/-- The elements of a list of trees are those of the trees that are elements. -/
theorem elementsAll_eq_filterMap (ns : List Node) :
    elementsAll ns = (ns.filterMap element?).flatMap fun e => e.toNode.elements := by
  induction ns with
  | nil => rfl
  | cons n ns ih =>
    cases n with
    | text run => exact ih
    | element tag children =>
      rw [elementsAll, ih]
      rfl

theorem forall_mem_elementsAll {Q : Element → Prop} {ns : List Node} :
    (∀ e ∈ elementsAll ns, Q e) ↔ ∀ n ∈ ns, ∀ e ∈ n.elements, Q e := by
  rw [elementsAll_eq_flatMap, List.forall_mem_flatMap]

theorem allTags_element {tag : Tag} {children : List Node} :
    (element tag children).AllTags P ↔ P tag ∧ ∀ n ∈ children, n.AllTags P := by
  rw [AllTags, elements, List.forall_mem_cons, forall_mem_elementsAll]
  rfl

theorem allTags_text (s : String) : (text s).AllTags P := by
  intro e he
  cases he

namespace AllTags

/-- An element is made of its start tag and its children. -/
theorem tag (h : e.toNode.AllTags P) : P e.toTag := (allTags_element.1 h).1

theorem of_mem_childElements (h : e.toNode.AllTags P) {child : Element}
    (hchild : child ∈ e.childElements) : child.toNode.AllTags P := by
  obtain ⟨n, hn, helement⟩ := List.mem_filterMap.1 hchild
  cases n with
  | text s => cases helement
  | element tag children =>
    cases helement
    exact (allTags_element.1 h).2 _ hn

/-- An element that has no children yet adds nothing to its start tag. -/
theorem of_childless (htag : P e.toTag) (hchildren : e.children = []) : e.toNode.AllTags P := by
  refine allTags_element.2 ⟨htag, ?_⟩
  rw [hchildren]
  exact List.forall_mem_nil _

/-- A change of the start tag leaves those below as they are. -/
theorem of_children_eq (h : e.toNode.AllTags P) {e' : Element}
    (hchildren : e'.children = e.children) (htag : P e.toTag → P e'.toTag) :
    e'.toNode.AllTags P := by
  obtain ⟨hold, hbelow⟩ := allTags_element.1 h
  exact allTags_element.2 ⟨htag hold, hchildren ▸ hbelow⟩

theorem push (h : e.toNode.AllTags P) {n : Node} (hn : n.AllTags P) :
    (e.push n).toNode.AllTags P := by
  obtain ⟨htag, hbelow⟩ := allTags_element.1 h
  exact allTags_element.2 ⟨htag, List.forall_mem_append.2 ⟨hbelow, List.forall_mem_singleton.2 hn⟩⟩

/-- A change of a child element, which may be new, keeps what it keeps of the child. -/
theorem alterChild (h : e.toNode.AllTags P) {new : Element} (hnew : new.toNode.AllTags P)
    {g : Element → Element} (hg : ∀ e : Element, e.toNode.AllTags P → (g e).toNode.AllTags P)
    (p : Element → Bool) : (e.alterChild p new g).toNode.AllTags P := by
  obtain ⟨htag, hbelow⟩ := allTags_element.1 h
  refine allTags_element.2 ⟨htag, FirstMatch.forall_mem_modifyOrPush ?_ (hg new hnew) hbelow⟩
  intro n hn
  cases n with
  | element tag children => exact hg ⟨tag, children⟩ hn
  | text s => exact hn

theorem eraseChildren (h : e.toNode.AllTags P) (p : Element → Bool) :
    (e.eraseChildren p).toNode.AllTags P := by
  obtain ⟨htag, hbelow⟩ := allTags_element.1 h
  exact allTags_element.2 ⟨htag, fun n hn => hbelow n (List.mem_filter.1 hn).1⟩

mutual

/-- A change of all attributes keeps what it keeps of each start tag. -/
theorem mapAttributes {f : Attribute → Attribute} : ∀ {n : Node}, n.AllTags P →
    (∀ t : Tag, P t → P { t with attributes := t.attributes.map f }) →
      (n.mapAttributes f).AllTags P
  | .element _ _, h, hf => by
    obtain ⟨htag, hbelow⟩ := allTags_element.1 h
    exact allTags_element.2 ⟨hf _ htag, mapAttributesAll hbelow hf⟩
  | .text _, h, _ => h

theorem mapAttributesAll {f : Attribute → Attribute} : ∀ {ns : List Node},
    (∀ n ∈ ns, n.AllTags P) →
    (∀ t : Tag, P t → P { t with attributes := t.attributes.map f }) →
      ∀ n ∈ Node.mapAttributesAll f ns, n.AllTags P
  | [], h, _ => h
  | _ :: _, h, hf => by
    obtain ⟨hhead, htail⟩ := List.forall_mem_cons.1 h
    exact List.forall_mem_cons.2 ⟨mapAttributes hhead hf, mapAttributesAll htail hf⟩

end

/-! ### Further down -/

theorem modifyChildAt? {f : Element → Option Element}
    (hf : ∀ e e' : Element, f e = some e' → e.toNode.AllTags P → e'.toNode.AllTags P)
    {ns ns' : List Node} {i : Nat} (h : Element.modifyChildAt? f ns i = some ns')
    (hns : ∀ n ∈ ns, n.AllTags P) : ∀ n ∈ ns', n.AllTags P := by
  induction ns generalizing i ns' with
  | nil => cases h
  | cons n ns ih =>
    obtain ⟨hn, hall⟩ := List.forall_mem_cons.1 hns
    cases n with
    | text s =>
      obtain ⟨below, hbelow, rfl⟩ := Option.map_eq_some_iff.1 h
      exact List.forall_mem_cons.2 ⟨hn, ih hbelow hall⟩
    | element tag children =>
      cases i with
      | zero =>
        obtain ⟨e, he, rfl⟩ := Option.map_eq_some_iff.1 h
        exact List.forall_mem_cons.2 ⟨hf _ _ he hn, hall⟩
      | succ i =>
        obtain ⟨below, hbelow, rfl⟩ := Option.map_eq_some_iff.1 h
        exact List.forall_mem_cons.2 ⟨hn, ih hbelow hall⟩

/-- A change of an element further down keeps what it keeps of that element. -/
theorem modifyAt? {f : Element → Element}
    (hf : ∀ e : Element, e.toNode.AllTags P → (f e).toNode.AllTags P) {way : List Nat}
    {e' : Element} (h : e.modifyAt? way f = some e') (he : e.toNode.AllTags P) :
    e'.toNode.AllTags P := by
  induction way generalizing e e' with
  | nil =>
    cases h
    exact hf e he
  | cons i way ih =>
    obtain ⟨htag, hbelow⟩ := allTags_element.1 he
    obtain ⟨children, hchildren, rfl⟩ := Option.map_eq_some_iff.1 h
    exact allTags_element.2 ⟨htag, modifyChildAt? (fun _ _ => ih) hchildren hbelow⟩

end AllTags

end AppBundle.Xml.Node
