import AppBundle.Resource.Table
import AppBundle.Targeting.Abi
import AppBundle.Targeting.Basic
import AppBundle.Targeting.TextureFormat

/-!
# Configurations of a module

Beside its resource table a module can hold four lists that say what some of
its files are for: directories of native libraries, directories of assets,
system images, and SDKs that the app depends on.  Each has a byte form.
-/

namespace AppBundle

open Wire

/-! ## Targeting -/

/-- The format of ABIs. -/
def Abi.format : Format Abi := (Format.number 4).via Abi.rank Abi.ofRank?

/-- The format of texture compression formats. -/
def TextureFormat.format : Format TextureFormat :=
  (Format.number 4).via TextureFormat.rank TextureFormat.ofRank?

/-- The format of targetings. -/
def Targeting.format {α : Type} [LT α] [DecidableLT α] [LE α] [Std.IsLinearOrder α]
    [Std.LawfulOrderLT α] (F : Format α) : Format (Targeting α) :=
  (F.set.pair F.set).via (fun t => (t.values, t.alternatives))
    fun (values, alternatives) => some { values, alternatives }

/-! ## Native libraries -/

/-- A directory of native libraries. -/
structure NativeDirectory where
  /-- The path of the directory. -/
  path : String
  /-- The ABI that the libraries are for. -/
  abi : Abi
deriving DecidableEq, Repr

/-- The directories of native libraries. -/
structure NativeConfig where
  /-- The directories. -/
  directories : List NativeDirectory
deriving DecidableEq, Repr

/-- The format of native directories. -/
def NativeDirectory.format : Format NativeDirectory :=
  (Format.text.pair Abi.format).via (fun d => (d.path, d.abi)) fun (path, abi) => some { path, abi }

/-- The format of native configurations. -/
def NativeConfig.format : Format NativeConfig :=
  NativeDirectory.format.list.via (·.directories) fun directories => some { directories }

/-! ## Assets -/

/-- A directory of assets. -/
structure AssetsDirectory where
  /-- The path of the directory. -/
  path : String
  /-- The languages that the assets are for. -/
  language : Option (Targeting String) := none
  /-- The texture compression formats that the assets are in. -/
  texture : Option (Targeting TextureFormat) := none
  /-- The country sets that the assets are for. -/
  countrySet : Option (Targeting String) := none
deriving DecidableEq

/-- The directories of assets. -/
structure AssetsConfig where
  /-- The directories. -/
  directories : List AssetsDirectory
deriving DecidableEq

/-- The format of asset directories. -/
def AssetsDirectory.format : Format AssetsDirectory :=
  let texts := (Targeting.format Format.text).optional
  let textures := (Targeting.format TextureFormat.format).optional
  (Format.text.pair (texts.pair (textures.pair texts))).via
    (fun d => (d.path, d.language, d.texture, d.countrySet))
    fun (path, language, texture, countrySet) => some { path, language, texture, countrySet }

/-- The format of assets configurations. -/
def AssetsConfig.format : Format AssetsConfig :=
  AssetsDirectory.format.list.via (·.directories) fun directories => some { directories }

/-! ## System images -/

/-- A system image. -/
structure ApexImage where
  /-- The path of the image. -/
  path : String
  /-- The ABIs that the image supports. -/
  abis : List Abi
deriving DecidableEq, Repr

/-- The system images. -/
structure ApexConfig where
  /-- The images. -/
  images : List ApexImage
deriving DecidableEq, Repr

/-- The format of system images. -/
def ApexImage.format : Format ApexImage :=
  (Format.text.pair Abi.format.list).via (fun i => (i.path, i.abis))
    fun (path, abis) => some { path, abis }

/-- The format of image configurations. -/
def ApexConfig.format : Format ApexConfig :=
  ApexImage.format.list.via (·.images) fun images => some { images }

/-! ## SDKs -/

/-- An SDK that the app depends on. -/
structure RuntimeSdk where
  /-- The name of its package. -/
  packageName : String
  /-- The first number of its version. -/
  major : Int32
  /-- The second number of its version. -/
  minor : Int32
  /-- The digest of its certificate. -/
  digest : String
  /-- The package id that its resources get inside the app. -/
  packageId : UInt32
deriving DecidableEq, Repr

/-- The SDKs that the app depends on. -/
structure SdkConfig where
  /-- The SDKs. -/
  sdks : List RuntimeSdk
deriving DecidableEq, Repr

/-- The format of SDKs. -/
def RuntimeSdk.format : Format RuntimeSdk :=
  (Format.text.pair (Format.signed.pair (Format.signed.pair (Format.text.pair Format.word)))).via
    (fun s => (s.packageName, s.major, s.minor, s.digest, s.packageId))
    fun (packageName, major, minor, digest, packageId) =>
      some { packageName, major, minor, digest, packageId }

/-- The format of SDK configurations. -/
def SdkConfig.format : Format SdkConfig :=
  RuntimeSdk.format.list.via (·.sdks) fun sdks => some { sdks }

/-! ## All together -/

/-- The configurations of a module, its resource table among them. -/
structure Configs where
  /-- The resource table. -/
  table : Option Resource.Table := none
  /-- The native libraries. -/
  native : Option NativeConfig := none
  /-- The assets. -/
  assets : Option AssetsConfig := none
  /-- The system images. -/
  apex : Option ApexConfig := none
  /-- The SDKs. -/
  sdk : Option SdkConfig := none
deriving DecidableEq

end AppBundle
