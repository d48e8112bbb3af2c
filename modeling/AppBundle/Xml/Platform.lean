/-!
# Attributes of the platform

The platform numbers the attributes that it defines.  These are the ones that a
manifest uses, with their ids, and the ones among them whose value is text or a
resource whatever the text looks like.
-/

namespace AppBundle.Xml.Platform

/-- The id of the attribute that names something. -/
def nameId : UInt32 := 0x01010003

/-- The id of the attribute that says whether an application has code. -/
def hasCodeId : UInt32 := 0x0101000c

/-- The id of the attribute that holds a value. -/
def valueId : UInt32 := 0x01010024

/-- The id of the lowest SDK version. -/
def minSdkVersionId : UInt32 := 0x0101020c

/-- The id of the version number. -/
def versionCodeId : UInt32 := 0x0101021b

/-- The id of the version name. -/
def versionNameId : UInt32 := 0x0101021c

/-- The id of the SDK version that is aimed at. -/
def targetSdkVersionId : UInt32 := 0x01010270

/-- The id of the highest SDK version. -/
def maxSdkVersionId : UInt32 := 0x01010271

/-- The id of the attribute that says whether native libraries are unpacked. -/
def extractNativeLibsId : UInt32 := 0x010104ea

/-- The id of the attribute that marks the split of a feature. -/
def isFeatureSplitId : UInt32 := 0x0101055b

/-- The known attributes with their ids. -/
def attributeIds : List (String × UInt32) := [
  ("theme", 0x01010000),
  ("label", 0x01010001),
  ("icon", 0x01010002),
  ("name", nameId),
  ("hasCode", hasCodeId),
  ("value", valueId),
  ("resource", 0x01010025),
  ("minSdkVersion", minSdkVersionId),
  ("versionCode", versionCodeId),
  ("versionName", versionNameId),
  ("targetSdkVersion", targetSdkVersionId),
  ("maxSdkVersion", maxSdkVersionId),
  ("glEsVersion", 0x01010281),
  ("required", 0x0101028e),
  ("extractNativeLibs", extractNativeLibsId),
  ("splitName", 0x01010549),
  ("isolatedSplits", 0x0101054b),
  ("isFeatureSplit", isFeatureSplitId),
  ("isSplitRequired", 0x01010591)]

/-- The id of a known attribute. -/
def attributeId? (name : String) : Option UInt32 := attributeIds.lookup name

/-- The attributes whose value is text or a resource. -/
def textAttributes : List String := [
  "name", "label", "icon", "theme", "resource", "versionName", "splitName", "process",
  "taskAffinity", "permission", "authorities", "targetPackage"]

/-- Whether the value of an attribute is text or a resource. -/
def isTextAttribute (name : String) : Bool := textAttributes.contains name

end AppBundle.Xml.Platform
