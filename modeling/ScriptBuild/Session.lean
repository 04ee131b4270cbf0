import ScriptBuild.Artifact
import ScriptBuild.Depfile
import ScriptBuild.FileSystem.Build
import ScriptBuild.Import.Serve

/-!
# Sessions

A session keeps one state through any number of steps: requests, scripts, questions about the state,
and changes of the file system in between. A step that fails keeps what it did until then.
-/

namespace ScriptBuild

open Script (Chunk SyntaxError)

/-- What lives through the steps of a session. -/
structure Session where
  machine : Machine
  setting : Setting
  state : State

/-- One step of a session. -/
inductive Session.Step where
  | require (request : Request)
  /-- A request served by the bare loader. -/
  | requireBare (request : Request)
  /-- Runs a script that has no file. -/
  | exec (source : String)
  /-- Runs the script of a file. -/
  | execFile (path : Path)
  /-- Reads the script of a file. -/
  | load (path : Path)
  /-- Looks a specifier up among the modules of the loader. -/
  | importOwn (specifier : String)
  /-- Asks which file a template leads to. -/
  | searchPath (specifier : String)
  | register (key specifier : String) (value : Value) (source : ModuleSource)
  | cached (key : String)
  | record (path : Path)
  | inject (cFlags linkFlags : List String)
  | exports
  | exportValue (name : String)
  | save (output : Path)
  | emit (depfile target : Path) (root : Option Path)
  | write (path : Path) (entry : Entry)
  | remove (path : Path)

/-- The answer to a step. -/
inductive Session.Answer where
  | value (result : Except Stop Value)
  | syntaxError (error : SyntaxError)
  | chunk (result : Except Stop Chunk)
  | own (result : Except Stop OwnModule)
  | path (found : Option Path)
  | registered (new : Bool)
  | cached (found : Option (CachedModule Value))
  | exports (all : Exports)
  | exportValue (found : Option Constant)
  /-- Whether saving worked, and whether the output is a file now. -/
  | saved (result : Except ArtifactError Unit) (written : Bool)
  /-- The text of the dependency file. -/
  | emitted (result : Except DepfileError (Option String))
  | done

namespace Session

/-- The session after a computation, and the answer made of its result. -/
def perform {α : Type} (s : Session) (answer : Except Stop α → Answer) (x : Eval α) :
    Answer × Session :=
  let r := x s.state
  (answer r.1, { s with state := r.2 })

/-- The session with another file system. -/
def withDisk (s : Session) (disk : FileSystem) : Session :=
  { s with setting := { s.setting with disk := disk } }

/-- The session after a registration. The lists and tables of the value are new instances. -/
def register (s : Session) (key specifier : String) (value : Value) (source : ModuleSource) :
    Answer × Session :=
  let renewed := value.renew s.state.nextInstance
  let start := { s.state with nextInstance := renewed.2 }
  match s.setting.register s.setting.searchPath ⟨key, renewed.1, source⟩ specifier start with
  | (.ok new, state) => (.registered new, { s with state := state })
  | (.error _, state) => (.registered false, { s with state := state })

/-- The session after its exports were saved. -/
def save (s : Session) (output : Path) : Answer × Session :=
  let saved := Artifact.save s.machine s.setting.disk output s.state.exports s.state.linkFlags true
  (.saved saved.1 (saved.2.isFile output), s.withDisk saved.2)

/-- The session after its dependencies were written to a file. -/
def emit (s : Session) (depfile target : Path) (root : Option Path) : Answer × Session :=
  match Depfile.emit s.setting.disk depfile target s.state.dependencies root with
  | .ok disk => (.emitted (.ok (disk.readText depfile).toOption), s.withDisk disk)
  | .error e => (.emitted (.error e), s)

/-- Takes one step. -/
def step (s : Session) : Step → Answer × Session
  | .require r => s.perform .value (s.setting.requireModule r)
  | .requireBare r => s.perform .value (s.setting.requireBare r)
  | .exec source =>
    match Chunk.ofText source none with
    | .ok c => s.perform .value (s.setting.runChunk c)
    | .error e => (.syntaxError e, s)
  | .execFile p => s.perform .value do s.setting.runChunk (← s.setting.load p)
  | .load p => s.perform .chunk (s.setting.load p)
  | .importOwn specifier => s.perform .own (s.setting.importOwn specifier)
  | .searchPath specifier => (.path (s.setting.searchPath specifier), s)
  | .register key specifier value source => s.register key specifier value source
  | .cached key => (.cached (s.state.cache.get? key), s)
  | .record p => (.done, { s with state := s.state.record p })
  | .inject cFlags linkFlags => (.done, { s with state := s.state.inject cFlags linkFlags })
  | .exports => (.exports s.state.exports, s)
  | .exportValue name => (.exportValue (s.state.exports.get? name), s)
  | .save output => s.save output
  | .emit depfile target root => s.emit depfile target root
  | .write p e => (.done, s.withDisk (s.setting.disk.add p e))
  | .remove p => (.done, s.withDisk (s.setting.disk.remove p))

/-- The session after steps. -/
def afterSteps (s : Session) (xs : List Step) : Session :=
  xs.foldl (fun s x => (s.step x).2) s

end Session

end ScriptBuild
