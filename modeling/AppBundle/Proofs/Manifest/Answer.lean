import AppBundle.Proofs.Manifest.Slot
import AppBundle.Proofs.Text.Span

/-!
# Edits and the answers to them

Each edit of a manifest has a topic, and each topic a reader (`Manifest.answer`)
that looks into one slot of the manifest.  An edit is a change in that slot
(`Edit.apply_eq`) which sets what the reader makes of it (`Edit.read_change`).

So an edit is read back wherever the reader sees the slot as the edit does
(`Edit.Seen`).  It is lost on a manifest where the first application element, or
the first element of SDK versions, has a namespace (`Edit.Hidden`), since the
reader goes there and the edit does not.  It is lost as well where the value of
meta-data takes the place of its name (`Edit.Renames`).  There is nothing else
that can happen to it (`answer_editOnce`).
-/

namespace AppBundle.Manifest

open Xml

/-! ## Topics -/

/-- What a manifest can be asked for and be edited in. -/
inductive Topic where
  /-- The name of the package. -/
  | package
  /-- The name of the split. -/
  | split
  /-- The version number. -/
  | versionCode
  /-- The lowest SDK version. -/
  | minSdk
  /-- The SDK version that is aimed at. -/
  | targetSdk
  /-- Whether the application has code. -/
  | hasCode
  /-- Whether the manifest is that of a feature split. -/
  | featureSplit
  /-- The modules that were fused into the app. -/
  | fusedModules
  /-- Whether a setting is on. -/
  | switch (setting : Switch)
deriving DecidableEq

/-- What the reader of a topic answers. -/
def Topic.Answer : Topic → Type
  | package => Except BundleError String
  | split => Option String
  | versionCode => Except BundleError (Option Int32)
  | minSdk => Except BundleError (Option Int32)
  | targetSdk => Except BundleError (Option Int32)
  | hasCode => Except BundleError Bool
  | featureSplit => Except BundleError Bool
  | fusedModules => List String
  | switch .extractNativeLibs => Except BundleError (Option Bool)
  | switch .splitsRequired => Except BundleError Bool

/-- The answer of a manifest to a topic. -/
def answer (m : Manifest) : (t : Topic) → t.Answer
  | .package => m.package?
  | .split => m.split?
  | .versionCode => m.versionCode?
  | .minSdk => m.minSdk?
  | .targetSdk => m.targetSdk?
  | .hasCode => m.hasCode?
  | .featureSplit => m.isFeatureSplit?
  | .fusedModules => m.fusedModules
  | .switch .extractNativeLibs => m.extractNativeLibs?
  | .switch .splitsRequired => m.splitsRequired?

namespace Topic

/-- The slot that the reader of a topic looks into. -/
def slot : Topic → Slot
  | package => .root (.plain "package")
  | split => .root (.plain "split")
  | versionCode => .root (.platform Platform.versionCodeId)
  | minSdk => .child .usesSdk (.platform Platform.minSdkVersionId)
  | targetSdk => .child .usesSdk (.platform Platform.targetSdkVersionId)
  | hasCode => .child .application (.platform Platform.hasCodeId)
  | featureSplit => .root (.platform Platform.isFeatureSplitId)
  | fusedModules => .metaData fusedModulesName
  | switch .extractNativeLibs => .child .application (.platform Platform.extractNativeLibsId)
  | switch .splitsRequired => .metaData splitsRequiredName

/-- What the reader of a topic makes of the slot. -/
def read : (t : Topic) → Option Attribute → t.Answer
  | package, a => (a.map Attribute.text?).getD (.error (.invalidBundle .noPackageName))
  | split, a => a.bind fun a => a.text?.toOption
  | versionCode, a => readOptional integer? a
  | minSdk, a => readOptional integer? a
  | targetSdk, a => readOptional integer? a
  | hasCode, a => readDefault true Attribute.boolean? a
  | featureSplit, a => readDefault false Attribute.boolean? a
  | fusedModules, a => ((a.bind fun a => a.text?.toOption).map splitNames).getD []
  | switch .extractNativeLibs, a => readOptional Attribute.boolean? a
  | switch .splitsRequired, a => readDefault false Attribute.boolean? a

end Topic

theorem metaDataValue?_eq (m : Manifest) (name : String) :
    m.metaDataValue? name = (Slot.metaData name).get? m.root := by
  rw [metaDataValue?, metaData?, Option.bind_assoc]
  refine congrArg (Option.bind m.application?) (funext fun app => ?_)
  rw [Element.childrenCalled, List.find?_filter]
  have htest : (fun e : Element => decide (e.isCalled "meta-data" ∧ hasNameAttribute name e)) =
      isMetaData name := by
    funext e
    rw [isMetaData, Element.isCalled, Bool.decide_and, Bool.decide_eq_true, Bool.decide_eq_true]
  rw [htest]
  rfl

/-- The reader of a topic reads its slot. -/
theorem answer_eq (m : Manifest) (t : Topic) : m.answer t = t.read (t.slot.get? m.root) := by
  cases t with
  | package =>
    show m.package? = ((m.root.attribute? "" "package").map Attribute.text?).getD _
    rw [package?]
    cases m.root.attribute? "" "package" with
    | none => rfl
    | some a => rfl
  | split => rfl
  | versionCode => rfl
  | minSdk => rfl
  | targetSdk => rfl
  | hasCode => rfl
  | featureSplit => rfl
  | fusedModules =>
    show m.fusedModules = Topic.fusedModules.read _
    rw [fusedModules, metaDataValue?_eq, Topic.read, Topic.slot]
    cases ((Slot.metaData fusedModulesName).get? m.root).bind fun a => a.text?.toOption with
    | none => rfl
    | some text => rfl
  | switch setting =>
    cases setting with
    | extractNativeLibs => rfl
    | splitsRequired =>
      show m.splitsRequired? = (Topic.switch .splitsRequired).read _
      rw [splitsRequired?, metaDataValue?_eq]
      rfl

/-! ## Edits -/

namespace Edit

/-- The topic of an edit. -/
def topic : Edit → Topic
  | package _ => .package
  | split _ => .split
  | noSplit => .split
  | versionCode _ => .versionCode
  | minSdk _ => .minSdk
  | targetSdk _ => .targetSdk
  | hasCode _ => .hasCode
  | featureSplit _ => .featureSplit
  | fusedModules _ => .fusedModules
  | switch setting _ => .switch setting

/-- The answer to its topic that an edit makes. -/
def answer : (edit : Edit) → edit.topic.Answer
  | package name => .ok name
  | split name => some name
  | noSplit => none
  | versionCode number => .ok (some number)
  | minSdk version => .ok (some version)
  | targetSdk version => .ok (some version)
  | hasCode value => .ok value
  | featureSplit value => .ok value
  | fusedModules names => names
  | switch .extractNativeLibs on => .ok (some on)
  | switch .splitsRequired on => .ok on

/-- What an edit changes in the element of its slot. -/
def change : Edit → Element → Element
  | package name => (·.alter "" "package" (·.setText name))
  | split name => (·.alter "" "split" (·.setText name))
  | noSplit => (·.erase "" "split")
  | versionCode number =>
    (·.alterAndroid "versionCode" Platform.versionCodeId (·.setDecimal number))
  | minSdk version =>
    (·.alterAndroid "minSdkVersion" Platform.minSdkVersionId (·.setDecimal version))
  | targetSdk version =>
    (·.alterAndroid "targetSdkVersion" Platform.targetSdkVersionId (·.setDecimal version))
  | hasCode value => (·.alterAndroid "hasCode" Platform.hasCodeId (·.setBoolean value))
  | featureSplit value =>
    (·.alterAndroid "isFeatureSplit" Platform.isFeatureSplitId (·.setBoolean value))
  | fusedModules names =>
    (·.alterAndroid "value" Platform.valueId (·.setText (",".intercalate names)))
  | switch .extractNativeLibs on =>
    (·.alterAndroid "extractNativeLibs" Platform.extractNativeLibsId (·.setBoolean on))
  | switch .splitsRequired on => (·.alterAndroid "value" Platform.valueId (·.setBoolean on))

/-- The names of modules that an edit lists. -/
def names : Edit → List String
  | fusedModules names => names
  | _ => []

/-- The names that an edit lists can be told apart in the list: they are not
empty and hold no comma. -/
def Plain (edit : Edit) : Prop := ∀ name ∈ edit.names, name ≠ "" ∧ ',' ∉ name.toList

instance (edit : Edit) : Decidable edit.Plain :=
  inferInstanceAs (Decidable (∀ name ∈ edit.names, name ≠ "" ∧ ',' ∉ name.toList))

variable {edit : Edit}

theorem apply_eq (edit : Edit) (root : Element) :
    edit.apply root = edit.topic.slot.alter edit.change root := by
  cases edit with
  | switch setting on => cases setting <;> rfl
  | _ => rfl

/-- An edit changes one attribute. -/
theorem local_change (edit : Edit) : Element.Local edit.topic.slot.key edit.change := by
  cases edit with
  | package name => exact Element.local_alter (Attribute.setsValue_setText name) "package"
  | split name => exact Element.local_alter (Attribute.setsValue_setText name) "split"
  | noSplit => exact Element.local_erase "split"
  | versionCode number => exact Element.local_alterAndroid (Attribute.setsValue_setItem _) rfl
  | minSdk version => exact Element.local_alterAndroid (Attribute.setsValue_setItem _) rfl
  | targetSdk version => exact Element.local_alterAndroid (Attribute.setsValue_setItem _) rfl
  | hasCode value => exact Element.local_alterAndroid (Attribute.setsValue_setItem _) rfl
  | featureSplit value => exact Element.local_alterAndroid (Attribute.setsValue_setItem _) rfl
  | fusedModules names => exact Element.local_alterAndroid (Attribute.setsValue_setText _) rfl
  | switch setting on =>
    cases setting with
    | extractNativeLibs => exact Element.local_alterAndroid (Attribute.setsValue_setItem _) rfl
    | splitsRequired => exact Element.local_alterAndroid (Attribute.setsValue_setItem _) rfl

/-- What an edit leaves in its slot is read as the answer that it makes. -/
theorem read_change (hplain : edit.Plain) (e : Element) :
    edit.topic.read ((edit.change e).read? edit.topic.slot.key) = edit.answer := by
  have hplatform : ∀ {f : Attribute → Attribute}, Attribute.SetsValue f → ∀ name id,
      (e.alterAndroid name id f).read? (.platform id) =
        some (f (.identified e.attributes name id)) :=
    fun hf name id => Element.android?_alterAndroid e hf name id
  cases edit with
  | package name =>
    exact congrArg (Topic.read .package)
      (Element.attribute?_alter e (Attribute.setsValue_setText name) "" "package")
  | split name =>
    exact congrArg (Topic.read .split)
      (Element.attribute?_alter e (Attribute.setsValue_setText name) "" "split")
  | noSplit => exact congrArg (Topic.read .split) (Element.attribute?_erase e "" "split")
  | versionCode number =>
    exact congrArg (Topic.read .versionCode) (hplatform (Attribute.setsValue_setItem _) _ _)
  | minSdk version =>
    exact congrArg (Topic.read .minSdk) (hplatform (Attribute.setsValue_setItem _) _ _)
  | targetSdk version =>
    exact congrArg (Topic.read .targetSdk) (hplatform (Attribute.setsValue_setItem _) _ _)
  | hasCode value =>
    exact congrArg (Topic.read .hasCode) (hplatform (Attribute.setsValue_setItem _) _ _)
  | featureSplit value =>
    exact congrArg (Topic.read .featureSplit) (hplatform (Attribute.setsValue_setItem _) _ _)
  | fusedModules names =>
    have hread := congrArg (Topic.read .fusedModules)
      (hplatform (Attribute.setsValue_setText (",".intercalate names)) "value" Platform.valueId)
    exact hread.trans (Text.pieces_intercalate rfl hplain)
  | switch setting on =>
    cases setting with
    | extractNativeLibs =>
      exact congrArg (Topic.read (.switch .extractNativeLibs))
        (hplatform (Attribute.setsValue_setItem _) _ _)
    | splitsRequired =>
      exact congrArg (Topic.read (.switch .splitsRequired))
        (hplatform (Attribute.setsValue_setItem _) _ _)

end Edit

/-! ## One edit -/

/-- The reader of the topic sees the slot as the edit does. -/
structure Edit.Seen (edit : Edit) (m : Manifest) : Prop where
  /-- The first child of the root that the reader goes to has no namespace. -/
  hosts : ∀ host ∈ edit.topic.slot.host?,
    ∀ e, m.root.childCalled? host.text = some e → e.namespaceUri = ""
  /-- Meta-data keeps its name when its value is set. -/
  keepsName : edit.topic.slot.KeepsName edit.change m.root

/-- The first child of the root that the reader goes to has a namespace, so that
the edit is made in another one. -/
def Edit.Hidden (edit : Edit) (m : Manifest) : Prop :=
  ∃ host ∈ edit.topic.slot.host?,
    ∃ e, m.root.childCalled? host.text = some e ∧ e.namespaceUri ≠ ""

/-- The edit sets the value of meta-data of this name, in this application, and
the meta-data loses its name by it. -/
structure Edit.Renames (edit : Edit) (m : Manifest) (name : String) (app : Element) : Prop where
  /-- The edit is one of meta-data of the name. -/
  slot_eq : edit.topic.slot = .metaData name
  /-- The application is the one that a reader goes to. -/
  application : m.root.childCalled? Host.application.text = some app
  /-- It has no namespace. -/
  namespaceUri_eq : app.namespaceUri = ""
  /-- The first meta-data of the name does not have it after the edit. -/
  lost : ∃ e, app.childElements.find? (isMetaData name) = some e ∧ ¬ isMetaData name (edit.change e)

variable {m : Manifest} {edit : Edit}

theorem Edit.renames_of_not (hseen : ¬ edit.Seen m) (hhidden : ¬ edit.Hidden m) :
    ∃ name app, edit.Renames m name app := by
  have hhosts : ∀ host ∈ edit.topic.slot.host?,
      ∀ e, m.root.childCalled? host.text = some e → e.namespaceUri = "" := by
    intro host hhost e he
    by_cases huri : e.namespaceUri = ""
    · exact huri
    · exact absurd ⟨host, hhost, e, he, huri⟩ hhidden
  obtain ⟨name, hslot, app, happ, hlost⟩ :=
    Slot.exists_of_not_keepsName fun hkeeps => hseen ⟨hhosts, hkeeps⟩
  refine ⟨name, app, hslot, happ, hhosts .application ?_ app happ, hlost⟩
  rw [hslot]
  rfl

theorem root_editOnce (m : Manifest) (edit : Edit) :
    (m.editOnce edit).root = edit.topic.slot.alter edit.change m.root :=
  edit.apply_eq m.root

theorem answer_editOnce_of_seen (hplain : edit.Plain) (h : edit.Seen m) :
    (m.editOnce edit).answer edit.topic = edit.answer := by
  obtain ⟨e, he⟩ := Slot.get?_alter_self edit.local_change h.hosts h.keepsName
  rw [answer_eq, root_editOnce, he, Edit.read_change hplain]

theorem answer_editOnce_of_hidden (h : edit.Hidden m) :
    (m.editOnce edit).answer edit.topic = m.answer edit.topic := by
  obtain ⟨host, hhost, e, he, huri⟩ := h
  rw [answer_eq, root_editOnce, Slot.get?_alter_of_foreign hhost he huri, answer_eq]

/-- The reader of meta-data that lost its name goes on to the next of the name. -/
theorem answer_editOnce_of_renames {name : String} {app : Element} (h : edit.Renames m name app) :
    (m.editOnce edit).answer edit.topic = edit.topic.read
      (((app.childElements.filter (isMetaData name))[1]?).bind
        (·.read? (.platform Platform.valueId))) := by
  obtain ⟨e, he, hlost⟩ := h.lost
  rw [answer_eq, root_editOnce, h.slot_eq,
    Slot.get?_alter_of_renamed h.application h.namespaceUri_eq he hlost]

/-- An edit is read back where the reader sees it, and makes no difference to the
reader where it is hidden.  Where neither is so, it takes the name of the
meta-data that it is made in, and the reader answers from the next. -/
theorem answer_editOnce (hplain : edit.Plain) (m : Manifest) :
    (edit.Seen m → (m.editOnce edit).answer edit.topic = edit.answer) ∧
      (edit.Hidden m → (m.editOnce edit).answer edit.topic = m.answer edit.topic) ∧
      (¬ edit.Seen m → ¬ edit.Hidden m → ∃ name app, edit.Renames m name app ∧
        (m.editOnce edit).answer edit.topic = edit.topic.read
          (((app.childElements.filter (isMetaData name))[1]?).bind
            (·.read? (.platform Platform.valueId)))) := by
  refine ⟨answer_editOnce_of_seen hplain, answer_editOnce_of_hidden, fun hseen hhidden => ?_⟩
  obtain ⟨name, app, hrenames⟩ := Edit.renames_of_not hseen hhidden
  exact ⟨name, app, hrenames, answer_editOnce_of_renames hrenames⟩

/-- A manifest whose application and SDK versions stand in a namespace of their own. -/
def foreignManifest : Manifest where
  root := {
    name := "manifest"
    children := [
      .element { namespaceUri := "urn:x", name := "application" } [],
      .element { namespaceUri := "urn:x", name := "uses-sdk" } []] }
  name_eq := rfl
  namespace_eq := rfl

/-- A manifest with meta-data that is named by an attribute called value. -/
def misnamedManifest : Manifest where
  root := {
    name := "manifest"
    children := [.element { name := "application" } [
      .element {
        name := "meta-data"
        attributes := [(Attribute.android "value" Platform.nameId).setText splitsRequiredName] }
        []]] }
  name_eq := rfl
  namespace_eq := rfl

theorem answer_editOnce_fusedModules :
    (misnamedManifest.editOnce (.fusedModules ["base", "maps"])).fusedModules = ["base", "maps"] ∧
      (foreignManifest.editOnce (.fusedModules ["base", "maps"])).fusedModules = [] := by
  have hplain : Edit.Plain (.fusedModules ["base", "maps"]) := by decide
  refine ⟨(answer_editOnce hplain misnamedManifest).1 ⟨?_, ?_⟩,
    (answer_editOnce hplain foreignManifest).2.1 ⟨.application, rfl, _, rfl, by decide⟩⟩
  · rintro host ⟨⟩ e ⟨⟩
    rfl
  · rintro app ⟨⟩ e ⟨⟩

/-- Edits are lost on a foreign application, on foreign SDK versions, and on
meta-data whose value takes the place of its name. -/
theorem editOnce_lost :
    (foreignManifest.editOnce (.minSdk 21)).minSdk? = .ok none ∧
      (foreignManifest.editOnce (.hasCode false)).hasCode? = .ok true ∧
      (misnamedManifest.editOnce (.switch .splitsRequired true)).splitsRequired? = .ok false :=
  ⟨rfl, rfl, rfl⟩

end AppBundle.Manifest
