import ScriptBuild.Environment
import ScriptBuild.Path.Raw

/-!
# The configuration of a run

What a run is asked to do: the script, the files to make and the directories and libraries to use. The
directories of headers and of libraries reach the run as flags, which are texts, so they are searched
as what they are shown as.
-/

namespace ScriptBuild

/-- What a run is asked to do. -/
structure Configuration where
  filename : Path
  output : Option Path := none
  depfile : Option Path := none
  /-- The directory that the paths of the dependency file are made relative to. -/
  depfileRoot : Option Path := none
  includeDirectories : List RawPath := []
  libraryDirectories : List RawPath := []
  libraries : List String := []
  moduleDirectories : List Path := []
  noDefaultModuleDirectories : Bool := false
  /-- Make an artefact for debugging. -/
  debug : Bool := false
  deriving DecidableEq, Repr

/-- Why a configuration is refused. -/
inductive ConfigurationError where
  | emptyInput
  deriving DecidableEq, Repr

/-- The wording of a refusal. -/
def ConfigurationError.message : ConfigurationError → String
  | emptyInput => "input file name is empty"

namespace Configuration

/-- The configuration names a script. -/
def validate (c : Configuration) : Except ConfigurationError Unit :=
  if c.filename.isEmpty then .error .emptyInput else .ok ()

/-- The directories to search for modules: those of the environment, those of the configuration, and
the default ones unless suppressed. -/
def searchDirectories (c : Configuration) (env : Environment) : List Path :=
  (env.modulePath.map Path.ofList).getD [] ++ c.moduleDirectories ++
    if c.noDefaultModuleDirectories then [] else env.defaultModuleDirectories

/-- The flags for importing constants. -/
def cFlags (c : Configuration) : List String :=
  c.includeDirectories.flatMap fun dir => ["-I", dir.display]

/-- The flags for linking. -/
def linkFlags (c : Configuration) : List String :=
  (c.libraryDirectories.flatMap fun dir => ["-L", dir.display]) ++ c.libraries.map ("-l" ++ ·)

/-- The target of the dependency file: the output if there is one, or else the script. -/
def depfileTarget (c : Configuration) : Path :=
  c.output.getD c.filename

end Configuration

end ScriptBuild
