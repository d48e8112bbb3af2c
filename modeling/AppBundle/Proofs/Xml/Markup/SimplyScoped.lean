import AppBundle.Proofs.Xml.Literal
import AppBundle.Proofs.Xml.Markup.Scope
import AppBundle.Proofs.Xml.Markup.Token

/-!
# Simply scoped trees

A text document cannot say everything that a tree can.  It has no place for two
runs of text one after the other, it drops blanks around a run, it writes
namespaces by prefixes only, and it does not mark which values are compiled.  A
simply scoped tree keeps to what a text document can say
(`Node.SimplyScoped`): no prefix is declared again below a declaration of it,
every namespace that is used has been declared, and each value is one that its
text stands for (`Attribute.IsLegible`).

Among such declarations a prefix stands for one namespace wherever it is written.
So a name goes back and forth between its key and itself (`splitName_qualify`).
-/

namespace AppBundle.Xml

open Markup

/-! ## Trees -/

/-- The prefixes of the declarations are plain names, all different.  A namespace may
have several of them. -/
structure Declaration.Unambiguous (declared : List Declaration) : Prop where
  /-- Each prefix is a plain name, and not the one that makes declarations. -/
  plain : ∀ d ∈ declared, isPlainName d.pfx = true ∧ d.pfx ≠ "xmlns"
  /-- No prefix is declared twice. -/
  prefixes_nodup : (declared.map (·.pfx)).Nodup

/-- The namespace is none, or one that is declared. -/
def Declaration.InScope (declared : List Declaration) (uri : String) : Prop :=
  uri = "" ∨ ∃ d ∈ declared, d.uri = uri

/-- Whether a compiled value is that of a literal.  An attribute that keeps its text
compiles only resources. -/
def Item.IsLegible (keeps : Bool) : Item → Prop
  | .string _ => False
  | .boolean _ => keeps = false
  | .decimal _ => keeps = false
  | .hex _ => keeps = false
  | .reference _ name => name = none
  | .primitive _ _ => False

/-- The text of the value is read as the value. -/
structure Attribute.IsLegible (a : Attribute) : Prop where
  /-- Text alone is not a literal that the attribute compiles. -/
  text : a.item = none → ∀ item ∈ Item.ofLiteral? a.raw,
    keepsText a.namespaceUri a.name = true ∧ isReference item = false
  /-- A compiled value stands alone and is that of a literal. -/
  compiled : ∀ item ∈ a.item, a.raw = "" ∧ item.IsLegible (keepsText a.namespaceUri a.name)

/-- An attribute as a text document can hold it, among the declarations in force. -/
structure Attribute.SimplyScoped (declared : List Declaration) (a : Attribute) : Prop where
  /-- The name is plain. -/
  name_plain : isPlainName a.name = true
  /-- The name alone is not that of a declaration. -/
  name_ne : a.namespaceUri = "" → a.name ≠ "xmlns"
  /-- The namespace is declared. -/
  inScope : Declaration.InScope declared a.namespaceUri
  /-- The id is the one that the platform gives to the name. -/
  resourceId_eq : a.resourceId =
    if a.namespaceUri = androidUri then Platform.attributeId? a.name else none
  /-- The value is read back. -/
  legible : a.IsLegible

/-- A start tag as a text document can hold it, among the declarations around it. -/
structure Tag.SimplyScoped (around : List Declaration) (tag : Tag) : Prop where
  /-- The name is plain. -/
  name_plain : isPlainName tag.name = true
  /-- The declarations stand in the order of their prefixes. -/
  ascending : tag.declarations.Pairwise (·.pfx < ·.pfx)
  /-- Together with those around they are unambiguous. -/
  unambiguous : Declaration.Unambiguous (inForce around tag)
  /-- The namespace is declared. -/
  inScope : Declaration.InScope (inForce around tag) tag.namespaceUri
  /-- No two attributes have the same name in the same namespace. -/
  names_nodup : (tag.attributes.map (·.fullName)).Nodup
  /-- The attributes are as a text document can hold them. -/
  attributes : ∀ a ∈ tag.attributes, a.SimplyScoped (inForce around tag)

namespace Node

/-- The node is an element, or no run of text comes right behind it. -/
def Apart (n : Node) (behind : List Node) : Prop :=
  n.text?.isSome → ∀ m ∈ behind.head?, m.text? = none

mutual

/-- A tree as a text document can hold it, among the declarations around it. -/
def SimplyScoped (around : List Declaration) : Node → Prop
  | element tag children => tag.SimplyScoped around ∧ SimplyScopedAll (inForce around tag) children
  | text s => s ≠ "" ∧ Text.trim s = s

/-- Trees in a row as a text document can hold them. -/
def SimplyScopedAll (around : List Declaration) : List Node → Prop
  | [] => True
  | n :: ns => SimplyScoped around n ∧ n.Apart ns ∧ SimplyScopedAll around ns

end

end Node

/-! ## Deciding -/

instance (declared : List Declaration) : Decidable (Declaration.Unambiguous declared) :=
  decidable_of_iff
    ((∀ d ∈ declared, isPlainName d.pfx = true ∧ d.pfx ≠ "xmlns") ∧
      (declared.map (·.pfx)).Nodup)
    ⟨fun h => ⟨h.1, h.2⟩, fun h => ⟨h.plain, h.prefixes_nodup⟩⟩

instance (declared : List Declaration) (uri : String) :
    Decidable (Declaration.InScope declared uri) :=
  inferInstanceAs (Decidable (uri = "" ∨ ∃ d ∈ declared, d.uri = uri))

instance (keeps : Bool) : (item : Item) → Decidable (item.IsLegible keeps)
  | .string _ => inferInstanceAs (Decidable False)
  | .boolean _ => inferInstanceAs (Decidable (keeps = false))
  | .decimal _ => inferInstanceAs (Decidable (keeps = false))
  | .hex _ => inferInstanceAs (Decidable (keeps = false))
  | .reference _ name => inferInstanceAs (Decidable (name = none))
  | .primitive _ _ => inferInstanceAs (Decidable False)

instance (a : Attribute) : Decidable a.IsLegible :=
  decidable_of_iff
    ((a.item = none → ∀ item ∈ Item.ofLiteral? a.raw,
        keepsText a.namespaceUri a.name = true ∧ isReference item = false) ∧
      ∀ item ∈ a.item, a.raw = "" ∧ item.IsLegible (keepsText a.namespaceUri a.name))
    ⟨fun h => ⟨h.1, h.2⟩, fun h => ⟨h.text, h.compiled⟩⟩

instance (declared : List Declaration) (a : Attribute) : Decidable (a.SimplyScoped declared) :=
  decidable_of_iff
    (isPlainName a.name = true ∧ (a.namespaceUri = "" → a.name ≠ "xmlns") ∧
      Declaration.InScope declared a.namespaceUri ∧
      a.resourceId = (if a.namespaceUri = androidUri then Platform.attributeId? a.name else none) ∧
      a.IsLegible)
    ⟨fun h => ⟨h.1, h.2.1, h.2.2.1, h.2.2.2.1, h.2.2.2.2⟩,
      fun h => ⟨h.name_plain, h.name_ne, h.inScope, h.resourceId_eq, h.legible⟩⟩

instance (around : List Declaration) (tag : Tag) : Decidable (tag.SimplyScoped around) :=
  decidable_of_iff
    (isPlainName tag.name = true ∧ tag.declarations.Pairwise (·.pfx < ·.pfx) ∧
      Declaration.Unambiguous (inForce around tag) ∧
      Declaration.InScope (inForce around tag) tag.namespaceUri ∧
      (tag.attributes.map (·.fullName)).Nodup ∧
      ∀ a ∈ tag.attributes, a.SimplyScoped (inForce around tag))
    ⟨fun h => ⟨h.1, h.2.1, h.2.2.1, h.2.2.2.1, h.2.2.2.2.1, h.2.2.2.2.2⟩,
      fun h => ⟨h.name_plain, h.ascending, h.unambiguous, h.inScope, h.names_nodup, h.attributes⟩⟩

namespace Node

instance (n : Node) (behind : List Node) : Decidable (n.Apart behind) :=
  inferInstanceAs (Decidable (n.text?.isSome → ∀ m ∈ behind.head?, m.text? = none))

mutual

/-- Decides whether a text document can hold a tree. -/
def decideSimplyScoped (around : List Declaration) :
    (n : Node) → Decidable (n.SimplyScoped around)
  | element tag children =>
    have := decideSimplyScopedAll (inForce around tag) children
    inferInstanceAs (Decidable (_ ∧ _))
  | text s => inferInstanceAs (Decidable (s ≠ "" ∧ Text.trim s = s))

/-- Decides whether a text document can hold trees in a row. -/
def decideSimplyScopedAll (around : List Declaration) :
    (ns : List Node) → Decidable (SimplyScopedAll around ns)
  | [] => inferInstanceAs (Decidable True)
  | n :: ns =>
    have := decideSimplyScoped around n
    have := decideSimplyScopedAll around ns
    inferInstanceAs (Decidable (_ ∧ _ ∧ _))

end

instance (around : List Declaration) (n : Node) : Decidable (n.SimplyScoped around) :=
  decideSimplyScoped around n

end Node

/-! ## Values -/

/-- A legible value has a literal, and an attribute that keeps its text compiles it
only if it is a resource. -/
theorem Item.IsLegible.kept {keeps : Bool} {item : Item} (h : item.IsLegible keeps) :
    item.IsLegible false ∧ (keeps = false ∨ isReference item = true) := by
  cases item with
  | string text => cases h
  | boolean value => exact ⟨rfl, .inl h⟩
  | decimal value => exact ⟨rfl, .inl h⟩
  | hex value => exact ⟨rfl, .inl h⟩
  | reference id name => exact ⟨h, .inr rfl⟩
  | primitive dataType data => cases h

namespace Markup

/-- The text of a value that has a literal is one that writes it. -/
theorem ofLiteral?_valueText {a : Attribute} {item : Item} (hitem : a.item = some item)
    (h : item.IsLegible false) : Item.ofLiteral? (valueText a) = some item := by
  rw [valueText, hitem]
  cases item with
  | string text => cases h
  | boolean value => exact Item.ofLiteral?_boolean value
  | decimal value => exact Item.ofLiteral?_decimal value
  | hex value => exact Item.ofLiteral?_hex 0 value
  | reference id name =>
    cases h
    exact Item.ofLiteral?_reference 8 id
  | primitive dataType data => cases h

/-! ## Keys -/

theorem find?_of_nodup {α β : Type} [DecidableEq β] {f : α → β} {l : List α}
    (h : (l.map f).Nodup) {a : α} (ha : a ∈ l) : l.find? (f · == f a) = some a := by
  induction l with
  | nil => cases ha
  | cons b bs ih =>
    rw [List.map_cons, List.nodup_cons] at h
    rcases List.mem_cons.1 ha with rfl | ha
    · exact List.find?_cons_of_pos (beq_self_eq_true _)
    · have hne : f b ≠ f a := fun heq => h.1 (heq ▸ List.mem_map_of_mem ha)
      rw [List.find?_cons_of_neg (by simp [hne]), ih h.2 ha]

section Keys

variable {declared : List Declaration} {scopes : List Scope} {uri name : String}

/-- A prefix in force stands for the namespace that it was declared for. -/
theorem lookup?_of_mem (hfollows : Follows scopes declared)
    (h : Declaration.Unambiguous declared) {d : Declaration} (hd : d ∈ declared) :
    lookup? scopes d.pfx = some d.uri := by
  rw [hfollows, find?_of_nodup (f := (·.pfx)) h.prefixes_nodup hd]
  rfl

/-- There is no default namespace. -/
theorem lookup?_empty (hfollows : Follows scopes declared)
    (h : Declaration.Unambiguous declared) : lookup? scopes "" = none := by
  rw [hfollows, Option.map_eq_none_iff, List.find?_eq_none]
  intro d hd heq
  exact ne_empty_of_isPlainName (h.plain d hd).1 (beq_iff_eq.1 heq)

/-- A key is the name alone, without a namespace, or the name behind a prefix in force. -/
theorem qualify_cases (h : Declaration.Unambiguous declared)
    (hin : Declaration.InScope declared uri) (name : String) :
    (uri = "" ∧ qualify declared uri name = name) ∨
      ∃ d ∈ declared, d.uri = uri ∧ qualify declared uri name = d.pfx ++ ":" ++ name := by
  by_cases huri : uri = ""
  · exact .inl ⟨huri, if_pos huri⟩
  · obtain ⟨d, hd, hdeclared⟩ := hin.resolve_left huri
    have hfound : (declared.find? (·.uri == uri)).isSome :=
      List.find?_isSome.2 ⟨d, hd, beq_iff_eq.2 hdeclared⟩
    obtain ⟨last, hlast⟩ := Option.isSome_iff_exists.1 hfound
    have hmem := List.mem_of_find?_eq_some hlast
    have huse := List.find?_some hlast
    refine .inr ⟨last, hmem, beq_iff_eq.1 huse, ?_⟩
    rw [qualify, if_neg huri, hlast]
    exact if_neg (ne_empty_of_isPlainName (h.plain last hmem).1)

theorem isKey_qualify (h : Declaration.Unambiguous declared)
    (hin : Declaration.InScope declared uri) (hname : isPlainName name = true) :
    IsKey (qualify declared uri name) := by
  rcases qualify_cases h hin name with ⟨-, hkey⟩ | ⟨d, hd, -, hkey⟩
  · rw [hkey]
    exact .bare hname
  · rw [hkey]
    exact .prefixed (h.plain d hd).1 hname

/-- The key of a name is split into a prefix for the namespace and the name. -/
theorem splitName_qualify (hfollows : Follows scopes declared)
    (h : Declaration.Unambiguous declared) (hin : Declaration.InScope declared uri)
    (hname : isPlainName name = true) :
    ∃ pfx, splitName (qualify declared uri name) = (pfx, name) ∧
      (pfx.bind (lookup? scopes)).getD "" = uri ∧
      (lookup? scopes (pfx.getD "")).getD "" = uri := by
  rcases qualify_cases h hin name with ⟨rfl, hkey⟩ | ⟨d, hd, rfl, hkey⟩
  · rw [hkey]
    refine ⟨none, splitName_of_not_mem (colon_not_mem hname), rfl, ?_⟩
    rw [Option.getD_none, lookup?_empty hfollows h]
    rfl
  · rw [hkey]
    refine ⟨some d.pfx, splitName_prefixed (colon_not_mem (h.plain d hd).1), ?_, ?_⟩
    · rw [Option.bind_some, lookup?_of_mem hfollows h hd]
      rfl
    · rw [Option.getD_some, lookup?_of_mem hfollows h hd]
      rfl

/-! ## Declarations -/

/-- The key that makes a declaration. -/
def declarationKey (d : Declaration) : String :=
  if d.pfx = "" then "xmlns" else "xmlns:" ++ d.pfx

theorem declaredPrefix?_declarationKey (d : Declaration) :
    declaredPrefix? (declarationKey d) = some d.pfx := by
  rw [declarationKey]
  split
  · rename_i hpfx
    rw [hpfx]
    rfl
  · rw [declaredPrefix?, String.toList_append]
    show some (String.ofList d.pfx.toList) = _
    rw [String.ofList_toList]

/-- Only the name and the prefix of declarations make one. -/
theorem declaredPrefix?_eq_none {key : String} (hname : key ≠ "xmlns")
    (hpfx : (splitName key).1 ≠ some "xmlns") : declaredPrefix? key = none := by
  rw [declaredPrefix?]
  split
  · rename_i hlist
    exact absurd (String.toList_inj.1 hlist) hname
  · rename_i pfx hlist
    have hsplit : splitName key = (some "xmlns", .ofList pfx) :=
      splitName_of_append hlist (by decide)
    exact absurd (congrArg Prod.fst hsplit) hpfx
  · rfl

theorem declaredPrefix?_qualify (h : Declaration.Unambiguous declared)
    (hin : Declaration.InScope declared uri) (hname : isPlainName name = true)
    (hne : uri = "" → name ≠ "xmlns") : declaredPrefix? (qualify declared uri name) = none := by
  rcases qualify_cases h hin name with ⟨huri, hkey⟩ | ⟨d, hd, -, hkey⟩
  · rw [hkey]
    refine declaredPrefix?_eq_none (hne huri) ?_
    rw [splitName_of_not_mem (colon_not_mem hname)]
    exact nofun
  · rw [hkey]
    refine declaredPrefix?_eq_none ?_ ?_
    · intro heq
      have hmem : ':' ∈ (d.pfx ++ ":" ++ name).toList := by simp
      rw [heq] at hmem
      revert hmem
      decide
    · rw [splitName_prefixed (colon_not_mem (h.plain d hd).1)]
      exact fun heq => (h.plain d hd).2 (Option.some.inj heq)

end Keys

end Markup

end AppBundle.Xml
