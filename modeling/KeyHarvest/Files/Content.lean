import KeyHarvest.Files.Disk

/-!
# Other content

A tree keeps its shape when its files get other content, and what was closed stays closed.
`mapContents` gives every file the content that a function makes of its place and its old content,
and `overwrite` gives new content to one file.
-/
namespace KeyHarvest

def Entry.mapContent (change : List UInt8 → List UInt8) : Entry → Entry
  | .directory => .directory
  | .file content => .file (change content)

@[simp] theorem Entry.mapContent_directory (change : List UInt8 → List UInt8) :
    Entry.mapContent change .directory = .directory := rfl

@[simp] theorem Entry.mapContent_file (change : List UInt8 → List UInt8) (content : List UInt8) :
    Entry.mapContent change (.file content) = .file (change content) := rfl

def Disk.mapContents (disk : Disk) (change : Location → List UInt8 → List UInt8) : Disk :=
  { disk with
    entries := disk.entries.map fun (location, entry) =>
      (location, entry.mapContent (change location)) }

namespace Workspace

def mapContents (workspace : Workspace) (change : Location → List UInt8 → List UInt8) : Workspace :=
  { workspace with disk := workspace.disk.mapContents change }

/-- The workspace with new content in the file at a path. Where no path leads, nothing changes. -/
def overwrite (workspace : Workspace) (path : Text) (content : List UInt8) : Workspace :=
  workspace.mapContents fun location old =>
    if (workspace.locate path).toOption = some location then content else old

end Workspace
end KeyHarvest
