import KeyHarvest.Discovery
import KeyHarvest.Files.Place

/-!
# Source roots

A source root is a directory with the path that names it. `SourceRoot.Finds` says of the names that
lead to a file from there that a scan finds the file, so that roots with different names can be
compared. An include suits a root (`SourceRoot.Suits`) if it cannot lead out of the root and if the
path of the root is read as it stands in front of it.
-/
namespace KeyHarvest

namespace Path

/-- Whether the first of the pieces that is no point is not empty. -/
def anchors : List Text → Bool
  | [] => true
  | piece :: rest => if piece = ['.'] then anchors rest else piece ≠ []

/-- No two separators stand in a row where only points are in front of them. -/
def IsAnchored (path : Text) : Prop :=
  isAbsolute path = true ∨ anchors (pieces isSeparator path) = true

instance (path : Text) : Decidable (IsAnchored path) := inferInstanceAs (Decidable (_ ∨ _))

end Path

namespace Glob

/-- In a pattern, the text stands for itself. -/
def IsPlain (text : Text) : Prop := '[' ∉ text ∧ '*' ∉ text ∧ '?' ∉ text

instance (text : Text) : Decidable (IsPlain text) := inferInstanceAs (Decidable (_ ∧ _))

/-- Whether a component of a pattern is expanded to the directory above, too. -/
def matchesParent (piece : Text) : Bool :=
  match readPattern piece with
  | .ok tokens => (specialNames tokens).contains ['.', '.']
  | .error _ => false

end Glob

/-- A directory with the path that leads there, where no name is too long for a path. -/
structure SourceRoot where
  workspace : Workspace
  base : Text
  place : Location
  wellFormed : workspace.disk.WellFormed
  short : ∀ entry ∈ workspace.disk.entries, ∀ name ∈ entry.1, CodeUnit.size name ≤ nameLimit
  located : workspace.locate base = .ok place
  directory : workspace.disk.entry? place = some .directory

namespace SourceRoot

/-- What lies below the root, by the names that lead there. -/
def contents (root : SourceRoot) : List (List Text × Entry) :=
  (root.workspace.disk.below root.place).map fun entry =>
    (entry.1.drop root.place.length, entry.2)

/-- What the names lead to is closed. -/
def IsClosed (root : SourceRoot) (names : List Text) : Prop :=
  root.place ++ names ∈ root.workspace.disk.closed

/-- The same lies below both roots, and the same is closed. -/
structure SameContents (root root' : SourceRoot) : Prop where
  entries : ∀ entry, entry ∈ root.contents ↔ entry ∈ root'.contents
  closed : ∀ names, root.IsClosed names ↔ root'.IsClosed names

/-- Behind the base and an include, the path of each place below the root is short enough. -/
def HasRoom (root : SourceRoot) (pattern : Text) : Prop :=
  ∀ names ∈ [] :: root.contents.map (·.1),
    CodeUnit.size root.base + CodeUnit.size pattern +
      CodeUnit.size (Workspace.pathOf names) + 3 ≤ pathLimit

instance (root : SourceRoot) (pattern : Text) : Decidable (root.HasRoom pattern) :=
  inferInstanceAs (Decidable (∀ names ∈ _, _))

/-- An include stays below the root, and a pattern is read behind the base as by itself. -/
structure Suits (root : SourceRoot) (pattern : Text) : Prop where
  relative : Path.isAbsolute pattern = false
  straight : Path.NoParents pattern
  room : root.HasRoom pattern
  wild : Glob.hasWildcard pattern = true →
    Glob.IsPlain root.base ∧ Path.IsAnchored (Path.join root.base pattern) ∧
      ∀ piece ∈ pieces Path.isSeparator pattern, Glob.matchesParent piece = false

theorem suits_iff (root : SourceRoot) (pattern : Text) :
    root.Suits pattern ↔
      Path.isAbsolute pattern = false ∧ Path.NoParents pattern ∧ root.HasRoom pattern ∧
        (Glob.hasWildcard pattern = true →
          Glob.IsPlain root.base ∧ Path.IsAnchored (Path.join root.base pattern) ∧
            ∀ piece ∈ pieces Path.isSeparator pattern, Glob.matchesParent piece = false) :=
  ⟨fun ⟨relative, straight, room, wild⟩ => ⟨relative, straight, room, wild⟩,
    fun ⟨relative, straight, room, wild⟩ => ⟨relative, straight, room, wild⟩⟩

instance (root : SourceRoot) (pattern : Text) : Decidable (root.Suits pattern) :=
  decidable_of_iff' _ (root.suits_iff pattern)

/-- A scan finds a file to which the names lead from the root. -/
def Finds (root : SourceRoot) (filter : Filter) (names : List Text) : Prop :=
  ∃ path ∈ (scanFiles root.workspace root.base filter).files,
    root.workspace.target path = .ok (root.place ++ names)

end SourceRoot
end KeyHarvest
