import AppBundle.Xml.CodecError
import AppBundle.Xml.Item

/-!
# Errors

An error is one of six kinds, and each kind lists its causes.

* `invalidArgument`: the caller asked for something impossible.
* `unexpectedType`: a value of one kind was asked for where another is stored.
* `invalidBundle`: the content of a bundle breaks its schema.
* `decode`: bytes or text could not be decoded; a path says where they stood.
* `resourceExhausted`: a resource table has no free id left.
* `incompatibleDevice`: the content cannot serve the device.

`BundleError.message` is the only place where causes are put into words.
-/

namespace AppBundle

open Text

/-- A fault of what the caller asked for. -/
inductive ArgumentFault where
  /-- A path segment is empty. -/
  | emptySegment
  /-- A path segment holds a separator. -/
  | separatorInSegment (name : String)
  /-- A path segment is a step to this or the enclosing directory. -/
  | relativeSegment (name : String)
  /-- A sibling of the root was asked for. -/
  | rootHasNoSibling
  /-- A range is empty or leaves the path. -/
  | subpathRange (first last : Nat) (path : String) (count : Nat)
  /-- A package id is out of range. -/
  | packageId (id : UInt32)
  /-- A type id is out of range. -/
  | typeId (id : UInt32)
  /-- An entry id is out of range. -/
  | entryId (id : UInt32)
  /-- A table without packages was given to be filled. -/
  | noPackage
  /-- A value is both targeted and left to others. -/
  | overlap (dimension shared : String)
  /-- More than one value is targeted where one was asked for. -/
  | severalValues (dimension values : String)
  /-- A name is not that of an ABI. -/
  | unknownAbi (name : String)
deriving DecidableEq, Repr

/-- The wording of an argument fault. -/
def ArgumentFault.message : ArgumentFault → String
  | emptySegment => "Path segments must not be empty."
  | separatorInSegment name => "Path segment '" ++ name ++ "' contains a separator."
  | relativeSegment name =>
    "Path segments '.' and '..' are not allowed, found '" ++ name ++ "'."
  | rootHasNoSibling => "Root has no sibling."
  | subpathRange first last path count =>
    "Invalid subpath [" ++ decimal first ++ ", " ++ decimal last ++ ") of path '" ++ path ++
      "' with " ++ decimal count ++ " segments."
  | packageId id => "Package id must be in range [1, 255], got " ++ decimal id.toNat ++ "."
  | typeId id => "Type id must be in range [1, 255], got " ++ decimal id.toNat ++ "."
  | entryId id => "Entry id must be in range [0, 65535], got " ++ decimal id.toNat ++ "."
  | noPackage => "Cannot inject resources into a table without packages."
  | overlap dimension shared =>
    "Expected " ++ dimension ++
      " targeting values and alternatives to be mutually exclusive, but both contain '" ++
      shared ++ "'."
  | severalValues dimension values =>
    "Expected at most one " ++ dimension ++ " value, but found " ++ values ++ "."
  | unknownAbi name => "Unrecognized ABI '" ++ name ++ "'."

/-- A fault of the content of a bundle.  Namespaces are given by their URI, empty for none. -/
inductive BundleFault where
  /-- An element of no known kind stands in a distribution element. -/
  | unexpectedElement (name uri parent : String)
  /-- An element stands outside the distribution namespace. -/
  | elementNamespace (name uri parent : String)
  /-- A distribution element has a child that it must not have. -/
  | unexpectedChild (element child : String)
  /-- An attribute stands outside the distribution namespace. -/
  | attributeNamespace (name element uri : String)
  /-- A required attribute is missing. -/
  | missingAttribute (name element : String)
  /-- An attribute of the delivery element is not an integer. -/
  | notInteger (attr element text : String)
  /-- An attribute of the delivery element is not a truth value. -/
  | notBoolean (attr element text : String)
  /-- The lowest SDK version lies above the highest. -/
  | sdkRange (low high : Int32)
  /-- A condition that may stand once stands twice. -/
  | repeatedCondition (element : String)
  /-- The name of a device group is not an identifier. -/
  | deviceGroupName (name : String)
  /-- A device group condition names no group. -/
  | noDeviceGroup
  /-- The root element of a manifest has another name. -/
  | manifestRoot (name : String)
  /-- The root of a manifest is a text run. -/
  | manifestText
  /-- A manifest names no package. -/
  | noPackageName
  /-- A module type is unknown. -/
  | moduleType (text : String)
  /-- An attribute of a manifest is not an integer. -/
  | notIntegerValue (attr text : String)
  /-- A delivery element declares no delivery mode. -/
  | noDeliveryMode (name : String)
  /-- The name of a module is not an identifier. -/
  | moduleName (name : String)
  /-- A module has no manifest. -/
  | missingManifest (name path : String)
deriving DecidableEq, Repr

/-- The namespace of the distribution elements. -/
def distributionUri : String := "http://schemas.android.com/apk/distribution"

/-- How messages speak of a namespace. -/
def describeNamespace (uri : String) : String :=
  if uri = "" then "namespace not provided" else "namespace '" ++ uri ++ "'"

/-- The wording of a bundle fault. -/
def BundleFault.message : BundleFault → String
  | unexpectedElement name uri parent =>
    "Found unexpected element '" ++ name ++ "' (" ++ describeNamespace uri ++ ") in '<dist:" ++
      parent ++ ">'."
  | elementNamespace name uri parent =>
    "Expected element 'dist:" ++ name ++ "' in '<dist:" ++ parent ++ ">' to be in namespace '" ++
      distributionUri ++ "' but found " ++ describeNamespace uri ++ "."
  | unexpectedChild element child =>
    "Expected no child elements in '<dist:" ++ element ++ ">' but found '" ++ child ++ "'."
  | attributeNamespace name element uri =>
    "Expected attribute 'dist:" ++ name ++ "' of element '" ++ element ++
      "' to be in namespace '" ++ distributionUri ++ "' but found " ++ describeNamespace uri ++ "."
  | missingAttribute name element =>
    "Missing required 'dist:" ++ name ++ "' attribute in the '" ++ element ++
      "' condition element."
  | notInteger attr element text =>
    "Expected an integer for 'dist:" ++ attr ++ "' in '" ++ element ++ "' but found '" ++
      text ++ "'."
  | notBoolean attr element text =>
    "Expected a boolean for 'dist:" ++ attr ++ "' in '" ++ element ++ "' but found '" ++
      text ++ "'."
  | sdkRange low high =>
    "Illegal SDK-based conditional module targeting (min SDK must be less than or equal to max " ++
      "SDK). Provided min and max values, respectively: " ++ signedDecimal low.toInt ++ ", " ++
      signedDecimal high.toInt
  | repeatedCondition element =>
    "Multiple '<dist:" ++ element ++ ">' conditions are not supported."
  | deviceGroupName name =>
    "Device group names should start with a letter and contain only letters, numbers and " ++
      "underscores. Found group named '" ++ name ++ "' in '<dist:device-group>' element."
  | noDeviceGroup =>
    "At least one device group should be specified in '<dist:device-groups>' element."
  | manifestRoot name =>
    "Expected the manifest root element to be '<manifest>' but found '<" ++ name ++ ">'."
  | manifestText => "The manifest root must be an element."
  | noPackageName => "Package name not found in the manifest."
  | moduleType text => "Found invalid module type '" ++ text ++ "' in the manifest."
  | notIntegerValue attr text =>
    "Expected an integer value for attribute '" ++ attr ++ "' but found '" ++ text ++ "'."
  | noDeliveryMode name =>
    "The '<dist:delivery>' element of module '" ++ name ++ "' declares no delivery mode."
  | moduleName name =>
    "Module names must start with a letter and can contain only letters, numbers and " ++
      "underscores. Found: '" ++ name ++ "'."
  | missingManifest name path =>
    "Module '" ++ name ++ "' is missing the mandatory file '" ++ path ++ "'."

/-- Why bytes or text could not be decoded. -/
inductive DecodeFault where
  /-- An XML document is at fault. -/
  | xml (error : Xml.CodecError)
  /-- Bytes do not follow the layout of their record. -/
  | layout
  /-- A text is not the JSON of its record. -/
  | json
  /-- The data behind an entry are gone. -/
  | sourceGone
deriving DecidableEq, Repr

/-- The wording of a decoding fault. -/
def DecodeFault.message : DecodeFault → String
  | xml error => error.message
  | layout => "codec error"
  | json => "codec error"
  | sourceGone => "backing file no longer exists"

/-- What ran out in a resource table. -/
inductive Shortage where
  /-- A package has a type for each of its 255 type ids. -/
  | typeIds (package : UInt32) (type : String)
  /-- A type already has an entry with the highest entry id. -/
  | entryIds (package : UInt32) (type : String)
deriving DecidableEq, Repr

/-- The wording of a shortage. -/
def Shortage.message : Shortage → String
  | typeIds package type =>
    "No free type id left in package 0x" ++ hex 2 package.toNat ++ " for type '" ++ type ++ "'."
  | entryIds package type =>
    "No free entry id left in type '" ++ type ++ "' of package 0x" ++ hex 2 package.toNat ++ "."

/-- Why a device cannot be served.  Sets of values are given by their text. -/
inductive Mismatch where
  /-- No ABI of the device is targeted. -/
  | abi (device app : String)
  /-- Every targeted SDK version lies above that of the device. -/
  | sdkVersion (app : String) (device : Int32)
  /-- The country set of the device is not targeted. -/
  | countrySet (device app : String)
  /-- No device group of the device is targeted. -/
  | deviceGroups (device app : String)
  /-- No variant matches. -/
  | noVariant
deriving DecidableEq, Repr

/-- The wording of a mismatch. -/
def Mismatch.message : Mismatch → String
  | abi device app =>
    "The app doesn't support ABI architectures of the device. Device ABIs: " ++ device ++
      ", app ABIs: " ++ app ++ "."
  | sdkVersion app device =>
    "The app targets SDK versions " ++ app ++ " but the device has SDK version " ++
      signedDecimal device.toInt ++ "."
  | countrySet device app =>
    "The specified country set '" ++ device ++ "' does not match any of the available values: " ++
      app ++ "."
  | deviceGroups device app =>
    "The specified device groups " ++ device ++ " do not match any of the available values: " ++
      app ++ "."
  | noVariant => "No variant of the app matches the device."

/-- Everything that can go wrong with a bundle. -/
inductive BundleError where
  /-- The caller asked for something impossible. -/
  | invalidArgument (fault : ArgumentFault)
  /-- A value of another kind is stored in the attribute; `none` is text that was never compiled. -/
  | unexpectedType (expected : Xml.Item.Kind) (found : Option Xml.Item.Kind) (attr : String)
  /-- The content breaks its schema. -/
  | invalidBundle (fault : BundleFault)
  /-- The content at a path, if one is known, could not be decoded. -/
  | decode (path : Option String) (fault : DecodeFault)
  /-- No id is left. -/
  | resourceExhausted (shortage : Shortage)
  /-- The device cannot be served. -/
  | incompatibleDevice (mismatch : Mismatch)
deriving DecidableEq, Repr

namespace BundleError

/-- The message of an error. -/
def message : BundleError → String
  | invalidArgument fault => "Invalid argument: " ++ fault.message
  | unexpectedType expected found attr =>
    "Unexpected type: expected " ++ expected.name ++ " but found " ++
      (match found with
        | some kind => kind.name
        | none => "raw string") ++ " in attribute '" ++ attr ++ "'"
  | invalidBundle fault => fault.message
  | decode (some path) fault => "Error decoding '" ++ path ++ "': " ++ fault.message
  | decode none fault => "Decode error: " ++ fault.message
  | resourceExhausted shortage => "Resource exhausted: " ++ shortage.message
  | incompatibleDevice mismatch => mismatch.message

/-- Whether the content is to blame, and not the caller. -/
def isInvalidBundle : BundleError → Bool
  | invalidBundle _ => true
  | decode _ _ => true
  | _ => false

/-- Names the path of a decoding error that does not name one yet. -/
def atPath (path : String) : BundleError → BundleError
  | decode none fault => decode (some path) fault
  | error => error

/-- The error of an XML document at no known path. -/
def ofXml (error : Xml.CodecError) : BundleError := decode none (.xml error)

end BundleError

end AppBundle
