import ScriptBuild.Artifact
import ScriptBuild.Configuration
import ScriptBuild.Depfile
import ScriptBuild.Import.Serve

/-!
# Runs

A run executes the script of a configuration, saves what it exports and writes the dependency file.
The dependency file is written also if saving failed; if both fail, the error of the dependency file
is the one that counts.
-/

namespace ScriptBuild

/-- Why a run failed. -/
inductive BuildError where
  | configuration (error : ConfigurationError)
  | script (stop : Stop)
  | artifact (error : ArtifactError)
  | depfile (error : DepfileError)
  deriving DecidableEq, Repr

namespace BuildError

/-- The wording of a failure. -/
def message : BuildError → String
  | configuration e => e.message
  | script (.failed e) => s!"script error: {e.message}"
  | script .overflow => "attempt to negate with overflow"
  | script .tooDeep => "script error: requests nested too deeply"
  | artifact e => s!"failed to save output: {e.message}"
  | depfile e => e.message

/-- The exit status of a failed run. A program that stops for an overflow has one of its own. -/
def exitCode : BuildError → Nat
  | configuration _ => 2
  | script .overflow => 101
  | script _ | artifact _ => 1
  | depfile _ => 3

end BuildError

/-- What a run depended on and what it exported. Without an output nothing counts as exported. -/
structure BuildResult where
  dependencies : List Path
  exports : Exports
  deriving DecidableEq, Repr

/-- How a run ended, with the state and the file system that it left. -/
structure BuildOutcome where
  result : Except BuildError BuildResult
  state : State
  disk : FileSystem

namespace Build

/-- The setting of a run. -/
def settingOf (m : Machine) (disk : FileSystem) (c : Configuration) (templates : List String) :
    Setting :=
  ⟨disk, { searchDirectories := c.searchDirectories m.toEnvironment }, templates, m.arithmetic⟩

/-- Runs the script of a configuration. -/
def runScript (setting : Setting) (c : Configuration) : Eval Value := do
  match setting.disk.canonicalize c.filename with
  | .error cause => Eval.fail (.io c.filename cause.message)
  | .ok entry => setting.runChunk (← setting.load entry)

/-- Saves the exports if an output is asked for, and tells whether that worked and the file system
then. -/
def saveOutput (m : Machine) (disk : FileSystem) (c : Configuration) (s : State) :
    Except ArtifactError Unit × FileSystem :=
  match c.output with
  | none => (.ok (), disk)
  | some output => Artifact.save m disk output s.exports s.linkFlags (! c.debug)

/-- Writes the dependency file if one is asked for. -/
def writeDepfile (disk : FileSystem) (c : Configuration) (dependencies : List Path) :
    Except DepfileError FileSystem :=
  match c.depfile with
  | none => .ok disk
  | some depfile => Depfile.emit disk depfile c.depfileTarget dependencies c.depfileRoot

/-- What follows the script: saving, and then the dependency file whether or not that worked. -/
def finish (m : Machine) (disk : FileSystem) (c : Configuration) (s : State) : BuildOutcome :=
  let saved := saveOutput m disk c s
  match writeDepfile saved.2 c s.dependencies, saved.1 with
  | .error e, _ => ⟨.error (.depfile e), s, saved.2⟩
  | .ok disk, .error e => ⟨.error (.artifact e), s, disk⟩
  | .ok disk, .ok () =>
    ⟨.ok ⟨s.dependencies, if c.output.isSome then s.exports else []⟩, s, disk⟩

end Build

/-- Runs a configuration on a file system, with the templates of the own loader. -/
def Configuration.build (c : Configuration) (m : Machine) (disk : FileSystem)
    (templates : List String) : BuildOutcome :=
  match c.validate with
  | .error e => ⟨.error (.configuration e), .empty, disk⟩
  | .ok () =>
    let start := State.empty.inject c.cFlags c.linkFlags
    match Build.runScript (Build.settingOf m disk c templates) c start with
    | (.error stop, s) => ⟨.error (.script stop), s, disk⟩
    | (.ok _, s) => Build.finish m disk c s

end ScriptBuild
