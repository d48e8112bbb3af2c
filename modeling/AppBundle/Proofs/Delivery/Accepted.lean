import AppBundle.Proofs.Delivery.Gathered
import AppBundle.Proofs.Text.Front

/-!
# Which conditions are accepted

The rules for a conditions element are those of its parts.  Each child has the
shape of one of five kinds (`Condition.Shaped`): its attributes stand in the
distribution namespace and hold what the kind asks for, and so do those of its own
children.  Each kind but the features stands at most once, and the bounds on the
SDK version are in order.  `LawfulConditions` puts the three together.

A reader that looks at the parts one after the other could stop at the wrong one.
It does not: conditions are read exactly when the element is lawful
(`ModuleConditions.exists_ofElement?_iff`).  For each reader of a part there is a lemma of that
form, and for the chain of all children it is that a child finds its place free as
long as no other child of its kind has stood before it
(`ModuleConditions.exists_foldlM_of_shaped`).
-/

namespace AppBundle

/-! ## Names -/

namespace Xml

open Text

/-- A letter of ASCII. -/
def IsLetter (c : Char) : Prop := ('A' ≤ c ∧ c ≤ 'Z') ∨ ('a' ≤ c ∧ c ≤ 'z')

/-- A letter, and after it letters, digits and underscores. -/
inductive IsIdentifier (text : String) : Prop where
  | mk {c : Char} {cs : List Char} (text_eq : text.toList = c :: cs) (letter : IsLetter c)
      (word : ∀ d ∈ cs, IsLetter d ∨ ('0' ≤ d ∧ d ≤ '9') ∨ d = '_')

theorem isAlpha_iff {c : Char} : c.isAlpha = true ↔ IsLetter c := by
  have hupper : c.isUpper = true ↔ 'A' ≤ c ∧ c ≤ 'Z' := decide_eq_true_iff
  have hlower : c.isLower = true ↔ 'a' ≤ c ∧ c ≤ 'z' :=
    Bool.and_eq_true_iff.trans (and_congr decide_eq_true_iff decide_eq_true_iff)
  exact Bool.or_eq_true_iff.trans (or_congr hupper hlower)

theorem isIdentifier_iff {text : String} : isIdentifier text = true ↔ IsIdentifier text := by
  have hword : ∀ d : Char, (d.isAlphanum || d == '_') = true ↔
      IsLetter d ∨ ('0' ≤ d ∧ d ≤ '9') ∨ d = '_' := by
    intro d
    simp [Char.isAlphanum, isAlpha_iff, Char.isDigit, Char.le_def, or_assoc]
  rw [isIdentifier, Option.isSome_iff_exists]
  constructor
  · rintro ⟨⟨⟩, h⟩
    obtain ⟨c, rest, hfirst, h⟩ := Front.bind_eq_some_iff.1 (Front.whole_eq_some_iff.1 h)
    obtain ⟨front, rest', hrun, h⟩ := Front.bind_eq_some_iff.1 h
    cases h
    obtain ⟨htext, hletter⟩ := Front.satisfy_eq_some_iff.1 hfirst
    obtain ⟨rfl, hall, -⟩ := Front.run_eq_some_iff.1 hrun
    rw [List.append_nil] at htext
    exact ⟨htext, isAlpha_iff.1 hletter, fun d hd => (hword d).1 (hall d hd)⟩
  · rintro ⟨htext, hletter, hall⟩
    have hfirst := Front.satisfy_eq_some_iff.2 ⟨htext, isAlpha_iff.2 hletter⟩
    have hrun := Front.run_eq_some_iff.2
      ⟨(List.append_nil _).symm, fun d hd => (hword d).2 (hall d hd), nofun⟩
    refine ⟨(), Front.whole_eq_some_iff.2 ?_⟩
    rw [identifier, Front.bind_of_some hfirst, Front.bind_of_some hrun]
    rfl

end Xml

/-! ## Attributes -/

namespace Delivery

open Xml

variable {e child : Element} {name : String} {m m' : ModuleConditions} {c : Condition}
  {k : Condition.Kind}

/-- An element has no attribute of a name, in any namespace. -/
def Lacks (e : Element) (name : String) : Prop := ∀ a ∈ e.attributes, a.name ≠ name

/-- An element gives a truth value in a distribution attribute. -/
def GivesBoolean (e : Element) (name : String) (b : Bool) : Prop :=
  ∃ a, e.attribute? distributionUri name = some a ∧ a.HoldsBoolean b

theorem attributeCalled?_eq_none_iff : e.attributeCalled? name = none ↔ Lacks e name := by
  simp [Element.attributeCalled?, Lacks]

theorem optional?_some_iff {a : Attribute} :
    optional? e name = .ok (some a) ↔ e.attribute? distributionUri name = some a := by
  constructor
  · exact attribute?_of_optional?
  · intro h
    rw [optional?, h]

theorem optional?_none_iff : optional? e name = .ok none ↔ Lacks e name := by
  rw [← attributeCalled?_eq_none_iff]
  constructor
  · intro h
    simp only [optional?] at h
    split at h
    · cases h
    · split at h
      · cases h
      · assumption
  · intro h
    have hnone : e.attribute? distributionUri name = none := by
      rw [attributeCalled?_eq_none_iff] at h
      refine List.find?_eq_none.2 fun a ha hnamed => h a ha ?_
      exact beq_iff_eq.1 (Bool.and_eq_true_iff.1 hnamed).2
    rw [optional?, hnone, h]

theorem required?_ok_iff {a : Attribute} :
    required? e name = .ok a ↔ e.attribute? distributionUri name = some a := by
  constructor
  · exact attribute?_of_required?
  · intro h
    rw [required?, Step.bind_ok _ (optional?_some_iff.2 h)]
    rfl

theorem boolean?_ok_iff {a : Attribute} {b : Bool} : boolean? e a = .ok b ↔ a.HoldsBoolean b := by
  constructor
  · exact holdsBoolean_of_boolean?
  · intro h
    cases h with
    | value hitem => simp [boolean?, Attribute.boolean?, hitem]
    | text htext =>
      have hother : ∃ error, a.boolean? = .error error := by
        simp only [Attribute.boolean?]
        split
        · rename_i hitem
          exact absurd htext (Attribute.text?_of_boolean hitem _)
        · exact ⟨_, rfl⟩
      obtain ⟨error, herror⟩ := hother
      simp only [boolean?, herror]
      rw [Step.bind_ok _ htext]
      cases b <;> rfl

/-! ## One condition -/

namespace Condition

/-- The elements that state a condition. -/
inductive Shaped (e : Element) : Prop where
  /-- The lowest SDK version is an integer. -/
  | minSdk (named : e.isNamed distributionUri "min-sdk") (value : ∃ v, GivesInteger e "value" v)
  /-- The highest SDK version is an integer. -/
  | maxSdk (named : e.isNamed distributionUri "max-sdk") (value : ∃ v, GivesInteger e "value" v)
  /-- A feature has a name, and its version is an integer if there is one. -/
  | feature (named : e.isNamed distributionUri "device-feature")
      (name : ∃ text, GivesText e "name" text)
      (version : Lacks e "version" ∨ ∃ v, GivesInteger e "version" v)
  /-- Countries have codes; whether they are left out is a truth value if it is said. -/
  | countries (named : e.isNamed distributionUri "user-countries")
      (exclude : Lacks e "exclude" ∨ ∃ b, GivesBoolean e "exclude" b)
      (children : ∀ country ∈ e.childElements,
        country.isNamed distributionUri "country" ∧ ∃ text, GivesText country "code" text)
  /-- There is at least one group, and groups have identifiers for names. -/
  | groups (named : e.isNamed distributionUri "device-groups") (nonempty : e.childElements ≠ [])
      (children : ∀ group ∈ e.childElements, group.isNamed distributionUri "device-group" ∧
        ∃ text, GivesText group "name" text ∧ IsIdentifier text)

theorem version?_ok_iff {v : Int32} : version? e = .ok v ↔ GivesInteger e "value" v := by
  simp only [version?, Step.bind_ok_iff, required?_ok_iff, integer?, Attribute.integer?_ok_iff]
  rfl

theorem exists_feature?_iff :
    (∃ f, feature? e = .ok f) ↔ (∃ text, GivesText e "name" text) ∧
      (Lacks e "version" ∨ ∃ v, GivesInteger e "version" v) := by
  constructor
  · rintro ⟨f, h⟩
    refine ⟨⟨_, (gives_of_feature? h).1⟩, ?_⟩
    obtain ⟨a, -, h⟩ := Step.ok_of_bind h
    obtain ⟨text, -, h⟩ := Step.ok_of_bind h
    obtain ⟨found, hfound, h⟩ := Step.ok_of_bind h
    cases found with
    | none => exact .inl (optional?_none_iff.1 hfound)
    | some b =>
      obtain ⟨v, hv, -⟩ := Step.ok_of_bind h
      exact .inr ⟨v, b, optional?_some_iff.1 hfound, Attribute.integer?_ok_iff.1 hv⟩
  · rintro ⟨⟨text, a, ha, htext⟩, hversion⟩
    rw [feature?, Step.bind_ok _ (required?_ok_iff.2 ha), Step.bind_ok _ htext]
    rcases hversion with hlacks | ⟨v, b, hb, hv⟩
    · exact ⟨_, Step.bind_ok _ (optional?_none_iff.2 hlacks)⟩
    · rw [Step.bind_ok _ (optional?_some_iff.2 hb)]
      exact ⟨_, Step.bind_ok _ (Attribute.integer?_ok_iff.2 hv)⟩

theorem classify_only_iff {parent : String} :
    classify parent [(name, ())] e = .ok () ↔ e.isNamed distributionUri name := by
  constructor
  · exact isNamed_of_classify
  · intro h
    obtain ⟨rfl, huri⟩ := Element.isNamed_iff.1 h
    exact classify_ok_iff.2 ⟨List.lookup_cons_self, huri⟩

theorem exists_country?_iff :
    (∃ code, country? e = .ok code) ↔
      e.isNamed distributionUri "country" ∧ ∃ text, GivesText e "code" text := by
  constructor
  · rintro ⟨code, h⟩
    obtain ⟨hnamed, text, htext, -⟩ := states_of_country? h
    exact ⟨hnamed, text, htext⟩
  · rintro ⟨hnamed, text, a, ha, htext⟩
    unfold country?
    rw [Step.bind_ok _ (classify_only_iff.2 hnamed), Step.bind_ok _ (required?_ok_iff.2 ha)]
    exact ⟨_, Step.bind_ok _ htext⟩

theorem exists_countries?_iff :
    (∃ c, countries? e = .ok c) ↔ (Lacks e "exclude" ∨ ∃ b, GivesBoolean e "exclude" b) ∧
      ∀ country ∈ e.childElements,
        country.isNamed distributionUri "country" ∧ ∃ text, GivesText country "code" text := by
  simp only [← exists_country?_iff, ← Step.exists_mapM_ok_iff]
  constructor
  · rintro ⟨c, h⟩
    obtain ⟨found, hfound, h⟩ := Step.ok_of_bind h
    cases found with
    | none =>
      obtain ⟨_, -, h⟩ := Step.ok_of_bind h
      obtain ⟨codes, hcodes, -⟩ := Step.ok_of_bind h
      exact ⟨.inl (optional?_none_iff.1 hfound), codes, hcodes⟩
    | some a =>
      obtain ⟨b, hb, h⟩ := Step.ok_of_bind h
      obtain ⟨codes, hcodes, -⟩ := Step.ok_of_bind h
      exact ⟨.inr ⟨b, a, optional?_some_iff.1 hfound, boolean?_ok_iff.1 hb⟩, codes, hcodes⟩
  · rintro ⟨hexclude, codes, hcodes⟩
    rcases hexclude with hlacks | ⟨b, a, ha, hb⟩
    · rw [countries?, Step.bind_ok _ (optional?_none_iff.2 hlacks)]
      exact ⟨_, Step.bind_ok _ hcodes⟩
    · rw [countries?, Step.bind_ok _ (optional?_some_iff.2 ha)]
      dsimp only
      rw [Step.bind_ok _ (boolean?_ok_iff.2 hb)]
      exact ⟨_, Step.bind_ok _ hcodes⟩

theorem exists_group?_iff :
    (∃ text, group? e = .ok text) ↔ e.isNamed distributionUri "device-group" ∧
      ∃ text, GivesText e "name" text ∧ IsIdentifier text := by
  constructor
  · rintro ⟨text, h⟩
    obtain ⟨⟨⟩, hkind, h⟩ := Step.ok_of_bind h
    obtain ⟨a, ha, h⟩ := Step.ok_of_bind h
    obtain ⟨text', htext, h⟩ := Step.ok_of_bind h
    split at h
    · rename_i hidentifier
      exact ⟨classify_only_iff.1 hkind, text', ⟨a, required?_ok_iff.1 ha, htext⟩,
        isIdentifier_iff.1 hidentifier⟩
    · cases h
  · rintro ⟨hnamed, text, ⟨a, ha, htext⟩, hidentifier⟩
    rw [group?, Step.bind_ok _ (classify_only_iff.2 hnamed),
      Step.bind_ok _ (required?_ok_iff.2 ha), Step.bind_ok _ htext]
    exact ⟨text, if_pos (isIdentifier_iff.2 hidentifier)⟩

theorem exists_groups?_iff :
    (∃ groups, groups? e = .ok groups) ↔ e.childElements ≠ [] ∧
      ∀ group ∈ e.childElements, group.isNamed distributionUri "device-group" ∧
        ∃ text, GivesText group "name" text ∧ IsIdentifier text := by
  simp only [← exists_group?_iff, ← Step.exists_mapM_ok_iff]
  constructor
  · rintro ⟨groups, h⟩
    obtain ⟨texts, htexts, h⟩ := Step.ok_of_bind h
    refine ⟨?_, texts, htexts⟩
    intro hnil
    rw [hnil] at htexts
    cases htexts
    cases h
  · rintro ⟨hne, texts, htexts⟩
    have hsome : (OrderedSet.ofList texts).isEmpty = false := by
      have hlength := Step.length_of_mapM htexts
      obtain ⟨text, htext⟩ := List.exists_mem_of_length_pos
        (hlength ▸ List.length_pos_iff.2 hne)
      exact OrderedSet.isEmpty_eq_false_iff.2 ⟨text, OrderedSet.mem_ofList.2 htext⟩
    rw [groups?, Step.bind_ok _ htexts]
    exact ⟨_, dif_neg (Bool.eq_false_iff.1 hsome)⟩

theorem classify_kinds_iff :
    classify "conditions" kinds e = .ok k ↔ e.isNamed distributionUri k.element := by
  rw [classify_ok_iff, lookup_kinds_iff, Element.isNamed_iff]

/-- A condition is read off the elements that state one. -/
theorem exists_ofElement?_iff : (∃ c, ofElement? e = .ok c) ↔ Shaped e := by
  constructor
  · rintro ⟨c, h⟩
    obtain ⟨k, hk, h⟩ := Step.ok_of_bind h
    have hnamed := classify_kinds_iff.1 hk
    cases k with
    | minSdk =>
      obtain ⟨v, hv, -⟩ := Step.ok_of_bind h
      exact .minSdk hnamed ⟨v, version?_ok_iff.1 hv⟩
    | maxSdk =>
      obtain ⟨v, hv, -⟩ := Step.ok_of_bind h
      exact .maxSdk hnamed ⟨v, version?_ok_iff.1 hv⟩
    | feature =>
      obtain ⟨f, hf, -⟩ := Step.ok_of_bind h
      obtain ⟨hname, hversion⟩ := exists_feature?_iff.1 ⟨f, hf⟩
      exact .feature hnamed hname hversion
    | countries =>
      obtain ⟨c, hc, -⟩ := Step.ok_of_bind h
      obtain ⟨hexclude, hchildren⟩ := exists_countries?_iff.1 ⟨c, hc⟩
      exact .countries hnamed hexclude hchildren
    | groups =>
      obtain ⟨groups, hgroups, -⟩ := Step.ok_of_bind h
      obtain ⟨hne, hchildren⟩ := exists_groups?_iff.1 ⟨groups, hgroups⟩
      exact .groups hnamed hne hchildren
  · intro h
    cases h with
    | minSdk hnamed hvalue =>
      obtain ⟨v, hv⟩ := hvalue
      rw [ofElement?, Step.bind_ok _ (classify_kinds_iff (k := .minSdk).2 hnamed)]
      exact ⟨_, Step.bind_ok _ (version?_ok_iff.2 hv)⟩
    | maxSdk hnamed hvalue =>
      obtain ⟨v, hv⟩ := hvalue
      rw [ofElement?, Step.bind_ok _ (classify_kinds_iff (k := .maxSdk).2 hnamed)]
      exact ⟨_, Step.bind_ok _ (version?_ok_iff.2 hv)⟩
    | feature hnamed hname hversion =>
      obtain ⟨f, hf⟩ := exists_feature?_iff.2 ⟨hname, hversion⟩
      rw [ofElement?, Step.bind_ok _ (classify_kinds_iff (k := .feature).2 hnamed)]
      exact ⟨_, Step.bind_ok _ hf⟩
    | countries hnamed hexclude hchildren =>
      obtain ⟨c, hc⟩ := exists_countries?_iff.2 ⟨hexclude, hchildren⟩
      rw [ofElement?, Step.bind_ok _ (classify_kinds_iff (k := .countries).2 hnamed)]
      exact ⟨_, Step.bind_ok _ hc⟩
    | groups hnamed hne hchildren =>
      obtain ⟨groups, hgroups⟩ := exists_groups?_iff.2 ⟨hne, hchildren⟩
      rw [ofElement?, Step.bind_ok _ (classify_kinds_iff (k := .groups).2 hnamed)]
      exact ⟨_, Step.bind_ok _ hgroups⟩

end Condition

/-! ## All conditions -/

namespace ModuleConditions

theorem add_of_free (h : m.held c.kind = false) : ∃ m', m.add c = .ok m' := by
  cases c with
  | feature f => exact ⟨_, rfl⟩
  | _ =>
    have hplace := Option.not_isSome_iff_eq_none.1 (Bool.eq_false_iff.1 h)
    exact ⟨_, map_once_ok_iff.2 ⟨hplace, rfl⟩⟩

/-- A chain of conditions is read when each of them is and each finds its place free. -/
theorem exists_foldlM_of_shaped {es : List Element}
    (hshaped : ∀ child ∈ es, Condition.Shaped child)
    (honce : ∀ k ≠ Condition.Kind.feature,
      (m.held k).toNat + es.countP (·.isNamed distributionUri k.element) ≤ 1) :
    ∃ m', es.foldlM addElement m = .ok m' := by
  induction es generalizing m with
  | nil => exact ⟨m, rfl⟩
  | cons e es ih =>
    obtain ⟨he, hes⟩ := List.forall_mem_cons.1 hshaped
    obtain ⟨c, hc⟩ := Condition.exists_ofElement?_iff.2 he
    have hnamed := Condition.isNamed_of_ofElement? hc
    have hfree : m.held c.kind = false := by
      by_cases hkind : c.kind = .feature
      · rw [hkind]
        rfl
      · have hle := honce c.kind hkind
        rw [List.countP_cons, hnamed, decide_eq_true rfl] at hle
        cases hheld : m.held c.kind with
        | false => rfl
        | true =>
          rw [hheld, Bool.toNat_true, if_pos rfl] at hle
          omega
    obtain ⟨m₁, hadd⟩ := add_of_free hfree
    have hnext : ∀ k ≠ Condition.Kind.feature,
        (m₁.held k).toNat + es.countP (·.isNamed distributionUri k.element) ≤ 1 := by
      intro k hk
      have hle := honce k hk
      rw [List.countP_cons, hnamed] at hle
      have hplace := add_fills hadd hk
      simp only [decide_eq_true_eq] at hle
      omega
    have hfirst : m.addElement e = .ok m₁ := Step.bind_ok_iff.2 ⟨c, hc, hadd⟩
    obtain ⟨m', hm'⟩ := ih hes hnext
    refine ⟨m', ?_⟩
    rw [List.foldlM_cons, Step.bind_ok _ hfirst, hm']

end ModuleConditions

/-- The conditions elements that are read: each child states a condition, each kind but the
features stands at most once, and the bounds on the SDK version are in order. -/
structure LawfulConditions (e : Element) : Prop where
  shaped : ∀ child ∈ e.childElements, Condition.Shaped child
  once : ∀ k ≠ Condition.Kind.feature,
    (e.childrenNamed distributionUri k.element).length ≤ 1
  inOrder : ∀ low high,
    (∃ child ∈ e.childrenNamed distributionUri "min-sdk", GivesInteger child "value" low) →
    (∃ child ∈ e.childrenNamed distributionUri "max-sdk", GivesInteger child "value" high) →
    low ≤ high

theorem ModuleConditions.exists_ofElement?_iff :
    (∃ m, ofElement? e = .ok m) ↔ LawfulConditions e := by
  constructor
  · rintro ⟨m, h⟩
    refine ⟨?_, ?_, ?_⟩
    · intro child hchild
      have hread := (includes_foldlM (ofElement?_ok_iff.1 h).1).2 child hchild
      exact Condition.exists_ofElement?_iff.1 hread
    · intro k hk
      rw [length_childrenNamed_of_ofElement? h hk]
      exact Bool.toNat_le _
    · intro low high hlow hhigh
      exact le_of_ofElement? h ((minSdk_iff h low).2 hlow) ((maxSdk_iff h high).2 hhigh)
  · intro h
    obtain ⟨m, hall⟩ := exists_foldlM_of_shaped (m := {}) h.shaped fun k hk => by
      rw [held_empty, Bool.toNat_false, Nat.zero_add, List.countP_eq_length_filter]
      exact h.once k hk
    have hstated : ∀ c, m.Includes c →
        ∃ child ∈ e.childElements, Condition.ofElement? child = .ok c := by
      intro c hc
      exact (((includes_foldlM hall).1 c).1 hc).resolve_left not_includes_empty
    have hgiven : ∀ c v, m.Includes c → c = .minSdk v ∨ c = .maxSdk v →
        ∃ child ∈ e.childrenNamed distributionUri c.kind.element, GivesInteger child "value" v := by
      intro c v hincludes hc
      obtain ⟨child, hchild, hread⟩ := hstated c hincludes
      exact ⟨child, List.mem_filter.2 ⟨hchild, Condition.isNamed_kind_of_ofElement? hread⟩,
        Condition.givesInteger_of_sdk hread hc⟩
    have hrange : m.checkSdkRange = .ok () := by
      refine checkSdkRange_ok_iff.2 fun low high hlow hhigh => ?_
      exact h.inOrder low high (hgiven (.minSdk low) low hlow (.inl rfl))
        (hgiven (.maxSdk high) high hhigh (.inr rfl))
    exact ⟨m, ofElement?_ok_iff.2 ⟨hall, hrange⟩⟩

/-- Where a delivery has a conditions element, its conditions are read exactly when the element
is lawful, and they are all that it states. -/
theorem targeting?_accepts {d : Delivery} {e : Element}
    (h : d.installTimeChild? "conditions" = some e) :
    ((∃ t, d.targeting? = .ok t) ↔ LawfulConditions e) ∧
      ∀ t, d.targeting? = .ok t →
        (∀ v, t.minSdk = some v ↔
          ∃ child ∈ e.childrenNamed distributionUri "min-sdk", GivesInteger child "value" v) ∧
        States e t := by
  have hread : ∀ t, d.targeting? = .ok t ↔
      ∃ m, ModuleConditions.ofElement? e = .ok m ∧ t = m.toTargeting := by
    intro t
    simp [targeting?_ok_iff, h]
  constructor
  · rw [← ModuleConditions.exists_ofElement?_iff]
    constructor
    · rintro ⟨t, ht⟩
      obtain ⟨m, hm, -⟩ := (hread t).1 ht
      exact ⟨m, hm⟩
    · rintro ⟨m, hm⟩
      exact ⟨m.toTargeting, (hread _).2 ⟨m, hm, rfl⟩⟩
  · intro t ht
    obtain ⟨m, hm, rfl⟩ := (hread t).1 ht
    exact ⟨ModuleConditions.minSdk_iff hm, ModuleConditions.states_toTargeting hm⟩

/-- The node of a distribution element with attributes that are texts. -/
def lettered (name : String) (attributes : List (String × String)) (children : List Node) : Node :=
  .element
    { namespaceUri := distributionUri, name
      attributes := attributes.map fun (name, raw) =>
        { namespaceUri := distributionUri, name, raw } }
    children

/-- A conditions element with children of each kind. -/
def fullConditions : Element where
  namespaceUri := distributionUri
  name := "conditions"
  children := [
    lettered "device-feature" [("name", "vulkan"), ("version", "+3")] [],
    lettered "user-countries" [("exclude", "true")] [
      lettered "country" [("code", "fr")] [], lettered "country" [("code", "PL")] []],
    minSdkNode 21,
    lettered "device-groups" [] [
      lettered "device-group" [("name", "mid_1")] [],
      lettered "device-group" [("name", "High")] []],
    lettered "max-sdk" [("value", " 29 ")] [],
    lettered "device-feature" [("name", "camera")] []]

/-- A delivery with the app under all of these conditions. -/
def fullDelivery : Delivery where
  element := {
    namespaceUri := distributionUri
    name := "delivery"
    children := [distribution "install-time" [.ofElement fullConditions]] }
  fastFollow := false

theorem targeting?_accepts_fullDelivery :
    fullDelivery.installTimeChild? "conditions" = some fullConditions ∧
      fullDelivery.targeting? = .ok
        { minSdk := some 21, maxSdk := some 29
          features := [⟨"vulkan", some 3⟩, ⟨"camera", none⟩]
          countries := some ⟨["FR", "PL"], true⟩
          groups := .ofList ["mid_1", "High"] } ∧
      LawfulConditions fullConditions ∧
      ∃ child ∈ fullConditions.childrenNamed distributionUri "device-groups",
        ∃ group ∈ child.childrenNamed distributionUri "device-group",
          GivesText group "name" "High" := by
  have hfound : fullDelivery.installTimeChild? "conditions" = some fullConditions := rfl
  obtain ⟨haccepted, hstates⟩ := targeting?_accepts hfound
  refine ⟨hfound, rfl, haccepted.1 ⟨_, rfl⟩, ?_⟩
  exact ((hstates _ rfl).2.groups "High").1 (OrderedSet.mem_ofList.2 (.tail _ (.head _)))

end Delivery

end AppBundle
