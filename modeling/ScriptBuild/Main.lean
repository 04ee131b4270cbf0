import ScriptBuild.Build
import ScriptBuild.CommandLine
import ScriptBuild.FileSystem.Build
import ScriptBuild.Machine.Plain

/-!
# The program

Reads the command line and the files of the directories that it names, runs the configuration on
them, and writes the files that the run changed. A file outside of the current directory, of the
script's directory and of the directories that are searched is not seen. Symbols are saved as the
plain machine does.
-/

namespace ScriptBuild

/-- What stands at a directory entry and below it. A link leads to the place that it finally leads
to, and a file there is taken along. -/
partial def snapshot (entry : IO.FS.DirEntry) : IO (List (Path × Entry)) := do
  let here : Path := ⟨entry.path.toString⟩
  try
    match (← entry.path.symlinkMetadata).type with
    | .dir =>
      let children ← (← entry.path.readDir).toList.mapM snapshot
      return (here, .directory) :: children.flatten
    | .file => return [(here, .file (Content.ofBytes (← IO.FS.readBinFile entry.path)))]
    | .symlink =>
      let target ← IO.FS.realPath entry.path
      let file ← try
          pure [(⟨target.toString⟩, .file (Content.ofBytes (← IO.FS.readBinFile target)))]
        catch _ => pure []
      return file ++ [(here, .link ⟨target.toString⟩)]
    | .other => return []
  catch _ => return []

/-- The directories whose files a run may read. -/
def directoriesOf (c : Configuration) (env : Environment) : List Path :=
  [⟨"."⟩, c.filename.parent?.getD ⟨"."⟩] ++ c.includeDirectories.map (⟨·.display⟩) ++
    c.searchDirectories env

/-- The files of these directories, and the directories of the files to write. -/
def readDisk (c : Configuration) (env : Environment) : IO FileSystem := do
  let cwd ← IO.currentDir
  let trees ← (directoriesOf c env).mapM fun dir => do
    try
      let root ← IO.FS.realPath (cwd / dir.text)
      snapshot ⟨root, ""⟩
    catch _ => pure []
  let places ← (c.output.toList ++ c.depfile.toList).mapM fun file => do
    try
      let parent ← IO.FS.realPath (cwd / (file.parent?.getD ⟨"."⟩).text)
      pure [((⟨parent.toString⟩ : Path), Entry.directory)]
    catch _ => pure []
  return .ofEntries ⟨cwd.toString⟩ (places.flatten ++ trees.flatten)

/-- Writes the files that stand in the second file system and not in the first. -/
def writeChanges (before after : FileSystem) : IO Unit :=
  after.entries.forM fun (loc, _) => do
    match after.content? loc with
    | some content =>
      if before.content? loc ≠ some content then
        IO.FS.writeBinFile loc.toPath.text content.toBytes
    | none => pure ()

/-- An event as a line for the user. -/
def Event.describe : Event → String
  | .read file => s!"read {file.text}"
  | .headers files => s!"imported constants from {files.length} headers"
  | .entered step => s!"resolved {step.specifier} -> {step.path.text}"
  | .left step => s!"loaded {step.path.text}"
  | .registered key _ _ => s!"detected module: {key}"

/-- The environment of the process. -/
def readEnvironment : IO Environment := do
  let executable ← try
      pure (some ⟨(← IO.appPath).toString⟩)
    catch _ => pure none
  let userData := userDataDirectory (← IO.getEnv "XDG_DATA_HOME") (← IO.getEnv "HOME")
  return { modulePath := ← IO.getEnv "SCRIPTC_PATH", compiler := ← IO.getEnv "CC", executable,
           userData }

/-- Runs a configuration on the files of the machine, and gives the exit status. -/
def compile (c : Configuration) (verbosity : Nat) : IO UInt32 := do
  let env ← readEnvironment
  let disk ← readDisk c env
  let outcome := c.build (.plain env) disk Setting.defaultTemplates
  if verbosity > 0 then outcome.state.history.forM fun e => IO.eprintln e.describe
  writeChanges disk outcome.disk
  match outcome.result with
  | .ok _ => return 0
  | .error e =>
    IO.eprintln s!"scriptc: {e.message}"
    return UInt32.ofNat e.exitCode

end ScriptBuild

/-- The program. -/
def main (arguments : List String) : IO UInt32 := do
  match ScriptBuild.CommandLine.ofWords arguments with
  | .ok .help =>
    IO.println ScriptBuild.CommandLine.usage
    return 0
  | .ok (.compile c verbosity) => ScriptBuild.compile c verbosity
  | .error e =>
    IO.eprintln s!"error: {e.message}"
    return 2
