import AppBundle.Delivery.Basic
import AppBundle.Ordered.Set
import AppBundle.Xml.Binary.Decode
import AppBundle.Xml.Binary.Encode
import AppBundle.Xml.Markup.Parse
import AppBundle.Xml.Platform

/-!
# Manifests

A manifest is a document whose root is the element `manifest` in no namespace.
What it says about its module stands in attributes of the root and of a few
elements below it; each has a reader here.

A reader answers `none` or a default where nothing is said, and an error where
something is said that cannot be understood.  Attributes of the platform are
found by their ids, child elements of the platform by name in any namespace,
and distribution elements by name within their namespace.
-/

namespace AppBundle

open Xml

/-- A document whose root is the manifest element. -/
structure Manifest where
  /-- The root element. -/
  root : Element
  /-- The name of the root. -/
  name_eq : root.name = "manifest"
  /-- The root stands in no namespace. -/
  namespace_eq : root.namespaceUri = ""

/-- The kinds of modules. -/
inductive ModuleType where
  /-- Code and resources. -/
  | feature
  /-- Assets. -/
  | assetPack
  /-- Machine learning models. -/
  | mlPack
deriving DecidableEq, Repr

/-- The name of a kind of module in a manifest. -/
def ModuleType.text : ModuleType → String
  | feature => "feature"
  | assetPack => "asset-pack"
  | mlPack => "ml-pack"

/-- The kinds of modules by name. -/
def ModuleType.ofText? (text : String) : Option ModuleType :=
  [feature, assetPack, mlPack].find? (·.text == text)

namespace Manifest

/-! ## Reading and writing -/

/-- The manifest of a document. -/
def ofNode? : Node → Except BundleError Manifest
  | .text _ => .error (.invalidBundle .manifestText)
  | .element tag children =>
    if h : tag.name = "manifest" ∧ tag.namespaceUri = "" then
      .ok { root := ⟨tag, children⟩, name_eq := h.1, namespace_eq := h.2 }
    else .error (.invalidBundle (.manifestRoot tag.name))

/-- The manifest of a binary document. -/
def ofBytes? (bs : Bytes) : Except BundleError Manifest :=
  match Binary.decode bs with
  | .ok n => ofNode? n
  | .error e => .error (.ofXml e)

/-- The manifest of a text document. -/
def ofText? (text : String) : Except BundleError Manifest :=
  match Markup.parse text with
  | .ok n => ofNode? n
  | .error e => .error (.ofXml e)

/-- The manifest as a document. -/
def toNode (m : Manifest) : Node := m.root.toNode

/-- The manifest as a binary document. -/
def toBytes (m : Manifest) : Except BundleError Bytes :=
  match Binary.encode m.toNode with
  | .ok bs => .ok bs
  | .error e => .error (.ofXml e)

instance : BEq Manifest := ⟨fun m n => m.root == n.root⟩

/-! ## The root element -/

/-- Reads an attribute that may be missing. -/
def readOptional {α : Type} (read : Attribute → Except BundleError α) :
    Option Attribute → Except BundleError (Option α)
  | some a => (read a).map some
  | none => .ok none

/-- Reads an attribute, or takes a default when it is missing. -/
def readDefault {α : Type} (default : α) (read : Attribute → Except BundleError α) :
    Option Attribute → Except BundleError α
  | some a => read a
  | none => .ok default

/-- The integer of an attribute. -/
def integer? (a : Attribute) : Except BundleError Int32 := a.integer? (.notIntegerValue a.name)

/-- The name of the package. -/
def package? (m : Manifest) : Except BundleError String :=
  match m.root.attribute? "" "package" with
  | some a => a.text?
  | none => .error (.invalidBundle .noPackageName)

/-- The name of the split, unless it is missing or no text. -/
def split? (m : Manifest) : Option String :=
  (m.root.attribute? "" "split").bind fun a => a.text?.toOption

/-- The version number. -/
def versionCode? (m : Manifest) : Except BundleError (Option Int32) :=
  readOptional integer? (m.root.android? Platform.versionCodeId)

/-- The version as people read it. -/
def versionName? (m : Manifest) : Option String :=
  (m.root.android? Platform.versionNameId).map (·.display)

/-- Whether the manifest is that of a feature split. -/
def isFeatureSplit? (m : Manifest) : Except BundleError Bool :=
  readDefault false Attribute.boolean? (m.root.android? Platform.isFeatureSplitId)

/-- The splits that the module uses. -/
def usesSplits? (m : Manifest) : Except BundleError (OrderedSet String) :=
  .ofList <$> ((m.root.childrenCalled "uses-split").filterMap
    (·.android? Platform.nameId)).mapM Attribute.text?

/-! ## SDK versions -/

/-- An SDK version, by the id of its attribute. -/
def sdk? (m : Manifest) (id : UInt32) : Except BundleError (Option Int32) :=
  readOptional integer? ((m.root.childCalled? "uses-sdk").bind (·.android? id))

/-- The lowest SDK version. -/
def minSdk? (m : Manifest) : Except BundleError (Option Int32) := m.sdk? Platform.minSdkVersionId

/-- The highest SDK version. -/
def maxSdk? (m : Manifest) : Except BundleError (Option Int32) := m.sdk? Platform.maxSdkVersionId

/-- The SDK version that is aimed at. -/
def targetSdk? (m : Manifest) : Except BundleError (Option Int32) :=
  m.sdk? Platform.targetSdkVersionId

/-! ## The application -/

/-- The application element. -/
def application? (m : Manifest) : Option Element := m.root.childCalled? "application"

/-- Whether the application has code. -/
def hasCode? (m : Manifest) : Except BundleError Bool :=
  readDefault true Attribute.boolean? (m.application?.bind (·.android? Platform.hasCodeId))

/-- Whether native libraries are unpacked. -/
def extractNativeLibs? (m : Manifest) : Except BundleError (Option Bool) :=
  readOptional Attribute.boolean?
    (m.application?.bind (·.android? Platform.extractNativeLibsId))

/-- Whether an element is named, by its name attribute. -/
def hasNameAttribute (name : String) (e : Element) : Bool :=
  ((e.android? Platform.nameId).bind fun a => a.text?.toOption) == some name

/-- The first element of meta-data with a name. -/
def metaData? (m : Manifest) (name : String) : Option Element :=
  m.application?.bind fun app => (app.childrenCalled "meta-data").find? (hasNameAttribute name)

/-- The value attribute of meta-data. -/
def metaDataValue? (m : Manifest) (name : String) : Option Attribute :=
  (m.metaData? name).bind (·.android? Platform.valueId)

/-- The name of the meta-data that says whether splits are required. -/
def splitsRequiredName : String := "com.android.vending.splits.required"

/-- The name of the meta-data that lists fused modules. -/
def fusedModulesName : String := "com.android.dynamic.apk.fused.modules"

/-- Whether the app needs its splits. -/
def splitsRequired? (m : Manifest) : Except BundleError Bool :=
  readDefault false Attribute.boolean? (m.metaDataValue? splitsRequiredName)

/-- The names in a list that is separated by commas, empty ones left out. -/
def splitNames (text : String) : List String :=
  (text.toList.splitOn ',').filter (· ≠ []) |>.map String.ofList

/-- The modules that were fused into the app; none unless the list is text. -/
def fusedModules (m : Manifest) : List String :=
  match (m.metaDataValue? fusedModulesName).bind fun a => a.text?.toOption with
  | some text => splitNames text
  | none => []

/-! ## Distribution -/

/-- The module element. -/
def module? (m : Manifest) : Option Element := m.root.childNamed? distributionUri "module"

/-- An attribute of the module element. -/
def moduleAttribute? (m : Manifest) (name : String) : Option Attribute :=
  m.module?.bind (·.attribute? distributionUri name)

/-- The kind of the module. -/
def type? (m : Manifest) : Except BundleError ModuleType :=
  match m.moduleAttribute? "type" with
  | none => .ok .feature
  | some a => do
    let text ← a.text?
    match ModuleType.ofText? text with
    | some type => return type
    | none => throw (.invalidBundle (.moduleType text))

/-- Whether the module runs without being installed. -/
def isInstant? (m : Manifest) : Except BundleError Bool :=
  readDefault false Attribute.boolean? (m.moduleAttribute? "instant")

/-- The older way to say that the module is delivered on demand. -/
def onDemand? (m : Manifest) : Except BundleError (Option Bool) :=
  readOptional Attribute.boolean? (m.moduleAttribute? "onDemand")

/-- The resource that holds the title of the module. -/
def title? (m : Manifest) : Except BundleError (Option UInt32) :=
  readOptional Attribute.reference? (m.moduleAttribute? "title")

/-- Whether the module is fused into the app where splits are not known. -/
def isFused? (m : Manifest) : Except BundleError (Option Bool) :=
  let fusing := m.module?.bind (·.childNamed? distributionUri "fusing")
  readOptional Attribute.boolean? (fusing.bind (·.attribute? distributionUri "include"))

/-- How the module is delivered, if the manifest says. -/
def delivery? (m : Manifest) (fastFollow : Bool) : Except BundleError (Option Delivery) :=
  Delivery.ofManifest? fastFollow m.root

/-! ## References -/

/-- The resource that an attribute refers to. -/
def referenceOf? (a : Attribute) : Option UInt32 :=
  match a.item with
  | some (.reference id _) => some id
  | _ => none

/-- The resources that attributes anywhere in the manifest refer to. -/
def references (m : Manifest) : OrderedSet UInt32 :=
  .ofList ((m.root.elements.flatMap (·.attributes)).filterMap referenceOf?)

end Manifest

end AppBundle
