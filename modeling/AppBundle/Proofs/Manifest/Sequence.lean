import AppBundle.Proofs.Manifest.Answer
import AppBundle.Proofs.Manifest.Edited

/-!
# Rows of edits

On an ordinary manifest an edit sets the answer to its own topic and leaves all
other answers alone (`answer_editOnce_of_ordinary`), and the manifest stays
ordinary (`Ordinary.editOnce`).  So after a row of edits each topic has the
answer of the last edit that concerns it, or the answer of the manifest before
where none does (`answer_edit_of_ordinary`).

A text document gives an ordinary manifest unless the application element or the
element of SDK versions has a namespace (`ordinary_of_ofText?`).
-/

namespace AppBundle.Manifest

open Xml

variable {m : Manifest} {edit : Edit}

/-! ## Slots that edits leave alone -/

/-- All topics. -/
def Topic.all : List Topic := [
  package, split, versionCode, minSdk, targetSdk, hasCode, featureSplit, fusedModules,
  switch .extractNativeLibs, switch .splitsRequired]

theorem Topic.mem_all (t : Topic) : t ∈ all := by
  cases t with
  | switch setting => cases setting <;> decide
  | _ => decide

/-- No two topics share a slot. -/
theorem Topic.slot_injective {t t' : Topic} (h : t.slot = t'.slot) : t = t' := by
  have hall : ∀ t ∈ all, ∀ t' ∈ all, t.slot = t'.slot → t = t' := by decide
  exact hall t t.mem_all t' t'.mem_all h

theorem get?_editOnce_of_ne (h : Ordinary m.root) (edit : Edit) {slot : Slot}
    (hne : slot ≠ edit.topic.slot) :
    slot.get? (m.editOnce edit).root = slot.get? m.root := by
  rw [root_editOnce]
  exact Slot.get?_alter_of_ne edit.local_change h.regular hne

/-! ## One edit -/

/-- The answer that an edit makes to a topic, if that is its own. -/
def Edit.answerFor? (edit : Edit) (t : Topic) : Option t.Answer :=
  if h : edit.topic = t then some (h ▸ edit.answer) else none

namespace Ordinary

theorem editOnce (h : Ordinary m.root) (edit : Edit) : Ordinary (m.editOnce edit).root := by
  rw [root_editOnce]
  exact h.alter edit.local_change

theorem seen (h : Ordinary m.root) (edit : Edit) : edit.Seen m :=
  ⟨fun _ _ _ he => h.namespaceUri_of_childCalled? he, h.keepsName edit.local_change⟩

end Ordinary

/-- An edit sets the answer to its topic and to no other. -/
theorem answer_editOnce_of_ordinary (h : Ordinary m.root) (hplain : edit.Plain) (t : Topic) :
    (m.editOnce edit).answer t = (edit.answerFor? t).getD (m.answer t) := by
  by_cases ht : edit.topic = t
  · subst ht
    rw [Edit.answerFor?, dif_pos rfl]
    exact answer_editOnce_of_seen hplain (h.seen edit)
  · have hslot : t.slot ≠ edit.topic.slot := fun hslot => ht (Topic.slot_injective hslot).symm
    rw [Edit.answerFor?, dif_neg ht, answer_eq, answer_eq, get?_editOnce_of_ne h edit hslot]
    rfl

/-! ## What no edit concerns -/

theorem maxSdk?_editOnce (h : Ordinary m.root) (edit : Edit) :
    (m.editOnce edit).maxSdk? = m.maxSdk? := by
  have hfree : ∀ t ∈ Topic.all,
      .child .usesSdk (.platform Platform.maxSdkVersionId) ≠ t.slot := by decide
  exact congrArg (readOptional integer?)
    (get?_editOnce_of_ne h edit (hfree edit.topic edit.topic.mem_all))

theorem versionName?_editOnce (h : Ordinary m.root) (edit : Edit) :
    (m.editOnce edit).versionName? = m.versionName? := by
  have hfree : ∀ t ∈ Topic.all, .root (.platform Platform.versionNameId) ≠ t.slot := by decide
  exact congrArg (Option.map (·.display))
    (get?_editOnce_of_ne h edit (hfree edit.topic edit.topic.mem_all))

/-- Child elements of the root that are no hosts stay as they are. -/
theorem filter_editOnce (m : Manifest) (edit : Edit) {q : Element → Bool}
    (hq : ∀ e host, e.isCalled (Host.text host) → q e = false) :
    (m.editOnce edit).root.childElements.filter q = m.root.childElements.filter q := by
  rw [root_editOnce]
  exact Slot.filter_alter edit.local_change hq

theorem module?_editOnce (m : Manifest) (edit : Edit) : (m.editOnce edit).module? = m.module? := by
  rw [module?, module?, Element.childNamed?, Element.childNamed?, ← List.head?_filter,
    ← List.head?_filter, filter_editOnce]
  intro e host he
  rw [← Bool.not_eq_true, Element.isNamed_iff, Element.isCalled_iff.1 he]
  exact fun h => absurd h.1 (by cases host <;> decide)

theorem usesSplits?_editOnce (m : Manifest) (edit : Edit) :
    (m.editOnce edit).usesSplits? = m.usesSplits? := by
  rw [usesSplits?, usesSplits?, Element.childrenCalled, Element.childrenCalled, filter_editOnce]
  intro e host he
  rw [← Bool.not_eq_true, Element.isCalled_iff, Element.isCalled_iff.1 he]
  cases host <;> decide

theorem type?_editOnce (m : Manifest) (edit : Edit) : (m.editOnce edit).type? = m.type? := by
  rw [type?, type?, moduleAttribute?, moduleAttribute?, module?_editOnce]

theorem delivery?_editOnce (m : Manifest) (edit : Edit) (fastFollow : Bool) :
    (m.editOnce edit).delivery? fastFollow = m.delivery? fastFollow := by
  have hmodule := module?_editOnce m edit
  rw [module?, module?] at hmodule
  rw [delivery?, delivery?, Delivery.ofManifest?, Delivery.ofManifest?, hmodule]

/-! ## Many edits -/

/-- The answer that the last edit of a topic makes to it. -/
def lastAnswer? (edits : List Edit) (t : Topic) : Option t.Answer :=
  edits.reverse.findSome? (·.answerFor? t)

theorem lastAnswer?_cons (edit : Edit) (edits : List Edit) (t : Topic) :
    lastAnswer? (edit :: edits) t = (lastAnswer? edits t).or (edit.answerFor? t) := by
  rw [lastAnswer?, List.reverse_cons, List.findSome?_append, List.findSome?_singleton, lastAnswer?]

/-- After a row of edits the last one of a topic counts. -/
theorem answer_edit_of_ordinary (h : Ordinary m.root) {edits : List Edit}
    (hplain : ∀ edit ∈ edits, edit.Plain) (t : Topic) :
    (m.edit edits).answer t = (lastAnswer? edits t).getD (m.answer t) := by
  induction edits generalizing m with
  | nil => rfl
  | cons edit edits ih =>
    obtain ⟨hfirst, hrest⟩ := List.forall_mem_cons.1 hplain
    have hstep := answer_editOnce_of_ordinary h hfirst t
    have hrow := ih (h.editOnce edit) hrest
    rw [hstep] at hrow
    rw [lastAnswer?_cons, Option.getD_or]
    exact hrow

/-- What each edit leaves alone, a row of edits does. -/
theorem edit_keeps {β : Type} {f : Manifest → β}
    (hstep : ∀ {m : Manifest}, Ordinary m.root → ∀ edit, f (m.editOnce edit) = f m)
    (h : Ordinary m.root) (edits : List Edit) : f (m.edit edits) = f m := by
  induction edits generalizing m with
  | nil => rfl
  | cons edit edits ih => exact (ih (h.editOnce edit)).trans (hstep h edit)

/-- A text document gives an ordinary manifest when its hosts have no namespace. -/
theorem ordinary_of_ofText? {text : String} (hread : ofText? text = .ok m)
    (hhosts : ∀ e ∈ m.root.childElements,
      e.name = "application" ∨ e.name = "uses-sdk" → e.namespaceUri = "") : Ordinary m.root where
  regular := by
    simp only [ofText?] at hread
    split at hread
    · rename_i n hparse
      have hregular := Markup.regular_of_parse hparse
      rwa [← toNode_of_ofNode? hread] at hregular
    · cases hread
  hosts e he host hcalled := by
    have hname := Element.isCalled_iff.1 hcalled
    cases host with
    | application => exact hhosts e he (.inl hname)
    | usesSdk => exact hhosts e he (.inr hname)

/-- Edits of a manifest from a text document whose hosts have no namespace are
independent, and the last one of a topic counts. -/
theorem answer_edit {text : String} (hread : ofText? text = .ok m)
    (hhosts : ∀ e ∈ m.root.childElements,
      e.name = "application" ∨ e.name = "uses-sdk" → e.namespaceUri = "")
    {edits : List Edit} (hplain : ∀ edit ∈ edits, edit.Plain) :
    (∀ t, (m.edit edits).answer t = (lastAnswer? edits t).getD (m.answer t)) ∧
      (m.edit edits).maxSdk? = m.maxSdk? ∧ (m.edit edits).versionName? = m.versionName? ∧
      (m.edit edits).type? = m.type? ∧ (m.edit edits).usesSplits? = m.usesSplits? ∧
      ∀ fastFollow, (m.edit edits).delivery? fastFollow = m.delivery? fastFollow := by
  have h := ordinary_of_ofText? hread hhosts
  refine ⟨answer_edit_of_ordinary h hplain, edit_keeps maxSdk?_editOnce h edits,
    edit_keeps versionName?_editOnce h edits, ?_, ?_, fun fastFollow => ?_⟩
  · exact edit_keeps (fun _ edit => type?_editOnce _ edit) h edits
  · exact edit_keeps (fun _ edit => usesSplits?_editOnce _ edit) h edits
  · exact edit_keeps (f := (·.delivery? fastFollow))
      (fun _ edit => delivery?_editOnce _ edit fastFollow) h edits

/-- A text document with the hosts, the name of a package and that of a split. -/
def lobbyText : String :=
  "<manifest package=\"lobby\" split=\"en\"><uses-sdk/><application/></manifest>"

/-- Edits of several topics, some of them made twice. -/
def lobbyEdits : List Edit := [
  .versionCode 3, .minSdk 21, .split "fr", .fusedModules ["base"], .versionCode 4, .noSplit,
  .switch .splitsRequired true, .fusedModules ["base", "maps"]]

theorem answer_edit_lobbyText :
    ∃ m, ofText? lobbyText = .ok m ∧ (m.edit lobbyEdits).versionCode? = .ok (some 4) ∧
      (m.edit lobbyEdits).split? = none ∧
      (m.edit lobbyEdits).fusedModules = ["base", "maps"] ∧
      (m.edit lobbyEdits).hasCode? = m.hasCode? ∧ (m.edit lobbyEdits).maxSdk? = m.maxSdk? := by
  have hlobby : (ofText? lobbyText).toOption.any fun m => decide (∀ e ∈ m.root.childElements,
      e.name = "application" ∨ e.name = "uses-sdk" → e.namespaceUri = "") := by decide +kernel
  obtain ⟨m, hread, hhosts⟩ := Step.ok_of_any hlobby
  have hplain : ∀ edit ∈ lobbyEdits, edit.Plain := by decide
  obtain ⟨hanswer, hmaxSdk, -⟩ := answer_edit hread (of_decide_eq_true hhosts) hplain
  exact ⟨m, hread, hanswer .versionCode, hanswer .split, hanswer .fusedModules, hanswer .hasCode,
    hmaxSdk⟩

end AppBundle.Manifest
