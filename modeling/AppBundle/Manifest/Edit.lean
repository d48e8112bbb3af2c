import AppBundle.Manifest.Basic
import AppBundle.Xml.Edit

/-!
# Editing manifests

`Manifest.Edit` lists what can be changed in a manifest.  Each edit sets one
attribute, and creates the attribute and the element that holds it when they
are missing.  `Manifest.edit` makes a list of edits in order.

Edits reach below the root and never rename it, so an edited manifest is a
manifest.
-/

namespace AppBundle.Manifest

open Xml

/-- Settings of an application that can be on or off. -/
inductive Switch where
  /-- Whether native libraries are unpacked. -/
  | extractNativeLibs
  /-- Whether the app needs its splits. -/
  | splitsRequired
deriving DecidableEq, Repr

/-- A change of a manifest. -/
inductive Edit where
  /-- Sets the name of the package. -/
  | package (name : String)
  /-- Sets the name of the split. -/
  | split (name : String)
  /-- Removes the name of the split. -/
  | noSplit
  /-- Sets the version number. -/
  | versionCode (number : Int32)
  /-- Sets the lowest SDK version. -/
  | minSdk (version : Int32)
  /-- Sets the SDK version that is aimed at. -/
  | targetSdk (version : Int32)
  /-- Sets whether the application has code. -/
  | hasCode (value : Bool)
  /-- Sets whether the manifest is that of a feature split. -/
  | featureSplit (value : Bool)
  /-- Sets the modules that were fused into the app. -/
  | fusedModules (names : List String)
  /-- Turns a setting on or off. -/
  | switch (setting : Switch) (on : Bool)
deriving DecidableEq, Repr

/-! ## Places -/

/-- Changes the application element. -/
def alterApplication (f : Element → Element) (root : Element) : Element :=
  root.alterChildNamed "" "application" f

/-- Changes the element of SDK versions. -/
def alterUsesSdk (f : Element → Element) (root : Element) : Element :=
  root.alterChildNamed "" "uses-sdk" f

/-- Whether an element is meta-data of a name. -/
def isMetaData (name : String) (e : Element) : Bool :=
  e.name == "meta-data" && hasNameAttribute name e

/-- An element of meta-data without a value. -/
def newMetaData (name : String) : Element :=
  ({ name := "meta-data" } : Element).alterAndroid "name" Platform.nameId (·.setText name)

/-- Changes the value of meta-data in an application element. -/
def alterMetaData (name : String) (f : Attribute → Attribute) (application : Element) : Element :=
  application.alterChild (isMetaData name) (newMetaData name)
    (·.alterAndroid "value" Platform.valueId f)

/-! ## Edits -/

/-- Turns a setting on or off in an application element. -/
def Switch.set (on : Bool) : Switch → Element → Element
  | extractNativeLibs =>
    (·.alterAndroid "extractNativeLibs" Platform.extractNativeLibsId (·.setBoolean on))
  | splitsRequired => alterMetaData splitsRequiredName (·.setBoolean on)

/-- Makes an edit below a root element. -/
def Edit.apply (root : Element) : Edit → Element
  | package name => root.alter "" "package" (·.setText name)
  | split name => root.alter "" "split" (·.setText name)
  | noSplit => root.erase "" "split"
  | versionCode number =>
    root.alterAndroid "versionCode" Platform.versionCodeId (·.setDecimal number)
  | minSdk version =>
    alterUsesSdk (·.alterAndroid "minSdkVersion" Platform.minSdkVersionId (·.setDecimal version))
      root
  | targetSdk version =>
    alterUsesSdk
      (·.alterAndroid "targetSdkVersion" Platform.targetSdkVersionId (·.setDecimal version)) root
  | hasCode value =>
    alterApplication (·.alterAndroid "hasCode" Platform.hasCodeId (·.setBoolean value)) root
  | featureSplit value =>
    root.alterAndroid "isFeatureSplit" Platform.isFeatureSplitId (·.setBoolean value)
  | fusedModules names =>
    alterApplication (alterMetaData fusedModulesName (·.setText (",".intercalate names))) root
  | switch setting on => alterApplication (setting.set on) root

theorem Edit.name_apply (root : Element) (edit : Edit) : (edit.apply root).name = root.name := by
  cases edit <;> rfl

theorem Edit.namespaceUri_apply (root : Element) (edit : Edit) :
    (edit.apply root).namespaceUri = root.namespaceUri := by
  cases edit <;> rfl

/-- The manifest after one edit. -/
def editOnce (m : Manifest) (edit : Edit) : Manifest where
  root := edit.apply m.root
  name_eq := (edit.name_apply m.root).trans m.name_eq
  namespace_eq := (edit.namespaceUri_apply m.root).trans m.namespace_eq

/-- The manifest after edits in order. -/
def edit (m : Manifest) (edits : List Edit) : Manifest := edits.foldl editOnce m

end AppBundle.Manifest
