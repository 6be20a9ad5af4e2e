import KeyHarvest.Files.Path
import Mathlib.Data.List.Chain

/-!
# Parents of paths

The parent of a path is the shortest front of the path with all its components but the last. A
lineage starts at a path and goes from parent to parent until it is at the root or at the empty
path, neither of which has a parent.
-/
namespace KeyHarvest.Path

/-- The parent is the shortest front of the path that is one component shorter. -/
structure IsParent (path parent : Text) : Prop where
  front : parent <+: path
  shorter : ∃ last, last ≠ Component.root ∧ components path = components parent ++ [last]
  shortest : ∀ front, front <+: parent → components front = components parent → front = parent

/-- No component can be taken off the path: it is empty, or stands for the root. -/
def IsTop (path : Text) : Prop := path = [] ∨ components path = [.root]

/-- The paths lead from parent to parent, from the first one to the top. -/
structure IsLineage (start : Text) (directories : List Text) : Prop where
  first : directories.head? = some start
  parents : directories.IsChain IsParent
  top : ∀ last ∈ directories.getLast?, IsTop last

end KeyHarvest.Path
