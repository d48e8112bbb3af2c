import AppBundle.Xml.Tree

/-!
# Staging copies

A tree is a value and stays as it is.  Someone who wants to change one takes a
staging copy of it, which has a part for each part of the tree, and builds a
tree from the copy in the end.  Nothing is lost on the way (`Node.build_stage`).  So
a copy stands for the tree that it builds, and edits are defined on elements alone.
-/

namespace AppBundle.Xml

/-- The staging copy of an attribute. -/
structure StagedAttribute where
  /-- The attribute that it builds. -/
  build : Attribute
deriving DecidableEq, Repr

/-- The staging copy of a tree. -/
inductive Staged where
  /-- The copy of an element. -/
  | element (namespaceUri name : String) (declarations : List Declaration)
    (attributes : List StagedAttribute) (children : List Staged)
  /-- The copy of a text run. -/
  | text (text : String)
deriving Repr

/-- Copies an attribute. -/
def Attribute.stage (a : Attribute) : StagedAttribute := ⟨a⟩

namespace Node

mutual

/-- Copies a tree. -/
def stage : Node → Staged
  | element tag children =>
    .element tag.namespaceUri tag.name tag.declarations (tag.attributes.map (·.stage))
      (stageAll children)
  | text s => .text s

/-- Copies a list of trees. -/
def stageAll : List Node → List Staged
  | [] => []
  | n :: ns => stage n :: stageAll ns

end

end Node

namespace Staged

mutual

/-- Builds the tree of a copy. -/
def build : Staged → Node
  | element namespaceUri name declarations attributes children =>
    .element { namespaceUri, name, declarations, attributes := attributes.map (·.build) }
      (buildAll children)
  | text s => .text s

/-- Builds the trees of a list of copies. -/
def buildAll : List Staged → List Node
  | [] => []
  | s :: ss => build s :: buildAll ss

end

end Staged

/-! ## There and back -/

namespace Node

mutual

theorem build_stage : ∀ n : Node, n.stage.build = n
  | element tag children => by
    rw [stage, Staged.build, buildAll_stageAll children, List.map_map]
    exact congrArg (fun as => element { tag with attributes := as } children) (List.map_id _)
  | text _ => rfl

theorem buildAll_stageAll : ∀ ns : List Node, Staged.buildAll (stageAll ns) = ns
  | [] => rfl
  | n :: ns => by rw [stageAll, Staged.buildAll, build_stage n, buildAll_stageAll ns]

end

end Node

end AppBundle.Xml
