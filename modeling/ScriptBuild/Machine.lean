import ScriptBuild.Arithmetic
import ScriptBuild.Environment
import ScriptBuild.FileSystem.Temporary
import ScriptBuild.ObjectModule

/-!
# Machines

All that a run is given besides its configuration and the file system: its environment, the libraries
that it calls and the arithmetic of the program.
-/

namespace ScriptBuild

/-- What a run is carried out by. -/
structure Machine extends Environment where
  objects : ObjectModule
  temporary : TemporaryFiles
  arithmetic : Arithmetic

end ScriptBuild
