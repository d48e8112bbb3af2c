import AppBundle.Proofs.Xml.Tags
import Mathlib.Data.Fintype.EquivFin
import Mathlib.Data.List.Perm.Subperm

/-!
# Comparing trees

Two trees are equal when they agree in all but the order of attributes, and
attributes are compared one way: there are equally many, and each of the first
is looked up in the second.  This is reflexive and transitive at every depth.

It is symmetric as far as attributes differ from each other.  A list without
repetition that another one of its length contains is a permutation of it
(`sameAttributes_iff_perm`).  An attribute that stands twice is looked up twice
with one result, so it leaves a place in the other list for an attribute that
the first one does not have; then the first equals the second and not the other
way round.  So a tree is equalled by all trees that it equals exactly when none
of its elements has an attribute twice (`Node.symm_iff_distinct`).
-/

namespace AppBundle.Xml

/-! ## Attributes -/

instance : Infinite Attribute :=
  .of_injective (fun n : Nat => { name := String.ofList (List.replicate n 'a') }) fun m n h => by
    have hname := congrArg (fun a : Attribute => a.name.length) h
    simpa using hname

namespace Node

theorem sameAttributes_iff {as bs : List Attribute} :
    sameAttributes as bs ↔ as.length = bs.length ∧ as ⊆ bs := by
  rw [sameAttributes, Bool.and_eq_true, beq_iff_eq, List.all_eq_true]
  simp only [List.contains_iff_mem]
  rfl

/-- Without repetition, what is contained in a list of the same length is a
permutation of it. -/
theorem sameAttributes_iff_perm {as bs : List Attribute} (has : as.Nodup) :
    sameAttributes as bs ↔ as.Perm bs := by
  rw [sameAttributes_iff]
  constructor
  · rintro ⟨hlength, hsubset⟩
    exact (has.subperm hsubset).perm_of_length_le hlength.ge
  · intro hperm
    exact ⟨hperm.length_eq, hperm.subset⟩

theorem sameAttributes_refl (as : List Attribute) : sameAttributes as as :=
  sameAttributes_iff.2 ⟨rfl, List.Subset.refl as⟩

theorem sameAttributes_trans {as bs cs : List Attribute} (h : sameAttributes as bs)
    (h' : sameAttributes bs cs) : sameAttributes as cs := by
  rw [sameAttributes_iff] at h h' ⊢
  exact ⟨h.1.trans h'.1, List.Subset.trans h.2 h'.2⟩

theorem sameAttributes_symm {as bs : List Attribute} (has : as.Nodup) (h : sameAttributes as bs) :
    sameAttributes bs as := by
  have hperm := (sameAttributes_iff_perm has).1 h
  exact sameAttributes_iff.2 ⟨hperm.length_eq.symm, hperm.symm.subset⟩

/-- In place of one of two equal attributes there is room for another one. -/
theorem exists_sameAttributes_of_not_nodup {as : List Attribute} (has : ¬ as.Nodup) :
    ∃ bs, sameAttributes as bs ∧ ¬ sameAttributes bs as := by
  obtain ⟨a, htwice⟩ : ∃ a, 1 < as.count a := by
    simpa [List.nodup_iff_count_le_one] using has
  obtain ⟨new, hnew⟩ := Infinite.exists_notMem_finset as.toFinset
  rw [List.mem_toFinset] at hnew
  have ha : a ∈ as := List.count_pos_iff.1 (by omega)
  refine ⟨new :: as.erase a, sameAttributes_iff.2 ⟨?_, fun b hb => ?_⟩, fun hback => ?_⟩
  · rw [List.length_cons, List.length_erase_of_mem ha]
    have hpos := List.length_pos_of_mem ha
    omega
  · refine List.mem_cons_of_mem _ ?_
    by_cases hba : b = a
    · rw [hba, ← List.count_pos_iff, List.count_erase_self]
      omega
    · exact (List.mem_erase_of_ne hba).2 hb
  · exact hnew ((sameAttributes_iff.1 hback).2 List.mem_cons_self)

/-! ## Start tags -/

end Node

/-- No attribute stands twice in a start tag. -/
def Tag.Distinct (t : Tag) : Prop := t.attributes.Nodup

instance (t : Tag) : Decidable t.Distinct := inferInstanceAs (Decidable t.attributes.Nodup)

namespace Node

theorem sameTag_iff {s t : Tag} :
    sameTag s t ↔ s.namespaceUri = t.namespaceUri ∧ s.name = t.name ∧
      s.declarations = t.declarations ∧ sameAttributes s.attributes t.attributes := by
  simp only [sameTag, Bool.and_eq_true, beq_iff_eq, and_assoc]

theorem sameTag_refl (t : Tag) : sameTag t t :=
  sameTag_iff.2 ⟨rfl, rfl, rfl, sameAttributes_refl t.attributes⟩

theorem sameTag_trans {s t u : Tag} (h : sameTag s t) (h' : sameTag t u) : sameTag s u := by
  obtain ⟨huri, hname, hdeclarations, hattributes⟩ := sameTag_iff.1 h
  obtain ⟨huri', hname', hdeclarations', hattributes'⟩ := sameTag_iff.1 h'
  exact sameTag_iff.2 ⟨huri.trans huri', hname.trans hname', hdeclarations.trans hdeclarations',
    sameAttributes_trans hattributes hattributes'⟩

theorem sameTag_symm {s t : Tag} (hs : s.Distinct) (h : sameTag s t) : sameTag t s := by
  obtain ⟨huri, hname, hdeclarations, hattributes⟩ := sameTag_iff.1 h
  exact sameTag_iff.2 ⟨huri.symm, hname.symm, hdeclarations.symm,
    sameAttributes_symm hs hattributes⟩

theorem distinct_of_sameTag_symm {s : Tag} (h : ∀ t, sameTag s t → sameTag t s) : s.Distinct := by
  by_contra htwice
  obtain ⟨bs, hsame, hback⟩ := exists_sameAttributes_of_not_nodup htwice
  have hsymm := h { s with attributes := bs } (sameTag_iff.2 ⟨rfl, rfl, rfl, hsame⟩)
  exact hback (sameTag_iff.1 hsymm).2.2.2

/-! ## Trees -/

theorem same_element_iff {s t : Tag} {ms ns : List Node} :
    same (element s ms) (element t ns) ↔ sameTag s t ∧ sameAll ms ns := by
  rw [same, Bool.and_eq_true]

theorem sameAll_cons_iff {m n : Node} {ms ns : List Node} :
    sameAll (m :: ms) (n :: ns) ↔ same m n ∧ sameAll ms ns := by
  rw [sameAll, Bool.and_eq_true]

mutual

theorem same_refl : ∀ n : Node, same n n
  | element t ns => same_element_iff.2 ⟨sameTag_refl t, sameAll_refl ns⟩
  | text _ => beq_self_eq_true _

theorem sameAll_refl : ∀ ns : List Node, sameAll ns ns
  | [] => rfl
  | n :: ns => sameAll_cons_iff.2 ⟨same_refl n, sameAll_refl ns⟩

end

mutual

theorem same_trans : ∀ {l m n : Node}, same l m → same m n → same l n
  | element _ _, element _ _, element _ _, h, h' => by
    obtain ⟨htag, hchildren⟩ := same_element_iff.1 h
    obtain ⟨htag', hchildren'⟩ := same_element_iff.1 h'
    exact same_element_iff.2 ⟨sameTag_trans htag htag', sameAll_trans hchildren hchildren'⟩
  | text _, text _, text _, h, h' => beq_iff_eq.2 ((beq_iff_eq.1 h).trans (beq_iff_eq.1 h'))
  | element _ _, text _, _, h, _ => nomatch h
  | text _, element _ _, _, h, _ => nomatch h
  | element _ _, element _ _, text _, _, h' => nomatch h'
  | text _, text _, element _ _, _, h' => nomatch h'

theorem sameAll_trans : ∀ {ls ms ns : List Node}, sameAll ls ms → sameAll ms ns → sameAll ls ns
  | [], [], [], _, _ => rfl
  | _ :: _, _ :: _, _ :: _, h, h' => by
    obtain ⟨hhead, htail⟩ := sameAll_cons_iff.1 h
    obtain ⟨hhead', htail'⟩ := sameAll_cons_iff.1 h'
    exact sameAll_cons_iff.2 ⟨same_trans hhead hhead', sameAll_trans htail htail'⟩
  | [], _ :: _, _, h, _ => nomatch h
  | _ :: _, [], _, h, _ => nomatch h
  | [], [], _ :: _, _, h' => nomatch h'
  | _ :: _, _ :: _, [], _, h' => nomatch h'

end

mutual

theorem same_symm : ∀ {m n : Node}, m.AllTags Tag.Distinct → same m n → same n m
  | element _ _, element _ _, hm, h => by
    obtain ⟨hdistinct, hbelow⟩ := allTags_element.1 hm
    obtain ⟨htag, hchildren⟩ := same_element_iff.1 h
    exact same_element_iff.2 ⟨sameTag_symm hdistinct htag, sameAll_symm hbelow hchildren⟩
  | text _, text _, _, h => beq_iff_eq.2 (beq_iff_eq.1 h).symm
  | element _ _, text _, _, h => nomatch h
  | text _, element _ _, _, h => nomatch h

theorem sameAll_symm : ∀ {ms ns : List Node}, (∀ m ∈ ms, m.AllTags Tag.Distinct) →
    sameAll ms ns → sameAll ns ms
  | [], [], _, _ => rfl
  | _ :: _, _ :: _, hms, h => by
    obtain ⟨hm, hms⟩ := List.forall_mem_cons.1 hms
    obtain ⟨hhead, htail⟩ := sameAll_cons_iff.1 h
    exact sameAll_cons_iff.2 ⟨same_symm hm hhead, sameAll_symm hms htail⟩
  | [], _ :: _, _, h => nomatch h
  | _ :: _, [], _, h => nomatch h

end

mutual

/-- A tree that is equalled by all trees it equals has no attribute twice: one part of
it is exchanged at a time, and the others stay as they are. -/
theorem distinct_of_same_symm : ∀ {m : Node}, (∀ n, same m n → same n m) →
    m.AllTags Tag.Distinct
  | element s ms, h => by
    refine allTags_element.2 ⟨distinct_of_sameTag_symm fun t ht => ?_,
      distinct_of_sameAll_symm fun ns hns => ?_⟩
    · have hback := h (element t ms) (same_element_iff.2 ⟨ht, sameAll_refl ms⟩)
      exact (same_element_iff.1 hback).1
    · have hback := h (element s ns) (same_element_iff.2 ⟨sameTag_refl s, hns⟩)
      exact (same_element_iff.1 hback).2
  | text s, _ => allTags_text s

theorem distinct_of_sameAll_symm : ∀ {ms : List Node}, (∀ ns, sameAll ms ns → sameAll ns ms) →
    ∀ m ∈ ms, m.AllTags Tag.Distinct
  | [], _ => List.forall_mem_nil _
  | m :: ms, h => by
    refine List.forall_mem_cons.2 ⟨distinct_of_same_symm fun n hn => ?_,
      distinct_of_sameAll_symm fun ns hns => ?_⟩
    · have hback := h (n :: ms) (sameAll_cons_iff.2 ⟨hn, sameAll_refl ms⟩)
      exact (sameAll_cons_iff.1 hback).1
    · have hback := h (m :: ns) (sameAll_cons_iff.2 ⟨same_refl m, hns⟩)
      exact (sameAll_cons_iff.1 hback).2

end

theorem symm_iff_distinct {m : Node} :
    (∀ n, same m n → same n m) ↔ m.AllTags Tag.Distinct :=
  ⟨distinct_of_same_symm, fun hm _ => same_symm hm⟩

end Node

/-! ## Elements -/

namespace Element

/-- What is said of all trees that equal an element is said of elements. -/
theorem forall_beq_iff {P : Node → Prop} {a : Element} :
    (∀ b : Element, a == b → P b.toNode) ↔ ∀ n, Node.same a.toNode n → P n := by
  constructor
  · intro h n hn
    cases n with
    | element tag children => exact h ⟨tag, children⟩ hn
    | text s => cases hn
  · intro h b hb
    exact h b.toNode hb

/-- Equality of elements is reflexive and transitive.  An element is equalled by all
elements that it equals exactly when no attribute stands twice in it or in an
element below it. -/
theorem beq_refl_trans_symm_iff (a : Element) :
    a == a ∧ (∀ b c : Element, a == b → b == c → a == c) ∧
      ((∀ b : Element, a == b → b == a) ↔ a.toNode.AllTags Tag.Distinct) := by
  refine ⟨Node.same_refl a.toNode, fun b c => Node.same_trans, ?_⟩
  exact forall_beq_iff.trans Node.symm_iff_distinct

/-- Meta-data below an activity, with two attributes of its own. -/
def activityOf (attributes : List Attribute) : Element where
  name := "activity"
  children := [.text " ", Element.toNode { name := "meta-data", attributes }]

theorem beq_refl_trans_symm_iff_activity :
    let as : List Attribute := [{ name := "name", raw := "a" }, { name := "value", raw := "1" }]
    (activityOf as).toNode.AllTags Tag.Distinct ∧ activityOf as == activityOf as.reverse ∧
      activityOf as.reverse == activityOf as ∧ activityOf as == activityOf as := by
  intro as
  have hdistinct : (activityOf as).toNode.AllTags Tag.Distinct := by decide
  have hsame : activityOf as == activityOf as.reverse := by decide
  obtain ⟨-, htrans, hsymm⟩ := beq_refl_trans_symm_iff (activityOf as)
  have hback := hsymm.2 hdistinct _ hsame
  exact ⟨hdistinct, hsame, hback, htrans _ _ hsame hback⟩

/-- An element with two attributes of one value, made one after the other. -/
def pairElement : Element :=
  (Element.insert { name := "e" } { name := "x", raw := "1" }).insert { name := "y", raw := "1" }

/-- The element in which the second attribute got the name of the first. -/
def twinElement : Element := pairElement.modify "" "y" ({ · with name := "x" })

/-- A renamed attribute may be there twice, and then equality depends on the side. -/
theorem beq_twinElement : twinElement == pairElement ∧ ¬ pairElement == twinElement := by decide

end Element

end AppBundle.Xml
