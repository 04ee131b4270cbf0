import ScriptBuild.Evaluation.Chunk

/-!
# Loaders

A loader runs the script of a file and has modules of its own: those built in, and the files that
its templates lead to. The loader of the script language is a function of the way in which the
requests of its scripts are served. `locate` says where the file of one of its own modules is,
without running it.
-/

namespace ScriptBuild

/-- What a loader has of its own under a specifier. -/
inductive OwnModule where
  | loaded (value : Value)
  /-- Nothing; the text says where it looked. -/
  | notFound (text : String)
  deriving Repr

/-- A way to run scripts and to find modules without search directories. -/
structure Loader where
  /-- Runs the script of a file. -/
  run : Path → Eval Value
  /-- Looks a specifier up among the loader's own modules. -/
  own : String → Eval OwnModule
  /-- The file of one of the loader's own modules. -/
  locate : String → Option Path

/-- The loader for which a file is worth its own path. It reads nothing and has no modules. -/
def Loader.bare : Loader where
  run p := pure (.str p.text)
  own specifier := pure (.notFound s!"no default loader available for '{specifier}'")
  locate _ := none

namespace Setting

/-- A new list of strings. -/
def newStrings (items : List String) : Eval Value :=
  return .list (← Eval.newInstance) (items.map .str)

/-- The module `build`: the flags as they are now. -/
def buildModule : Eval Value := do
  let s ← get
  let cFlags ← newStrings s.cFlags
  let linkFlags ← newStrings s.linkFlags
  return .table (← Eval.newInstance)
    (Fields.ofList [("c_flags", cFlags), ("link_flags", linkFlags)])

/-- The module `platform`: what artefacts are made for. -/
def platformModule : Eval Value :=
  return .table (← Eval.newInstance)
    (Fields.ofList [("os", .str "linux"), ("arch", .str "x86_64"), ("family", .str "unix")])

/-- The built-in module of that name. -/
def builtinModule? (specifier : String) : Option (Eval Value) :=
  if specifier = "build" then some buildModule
  else if specifier = "platform" then some platformModule
  else none

/-- What is said of a specifier that no template leads to a file for. -/
def notFoundText (setting : Setting) (specifier : String) : String :=
  "\n".intercalate (s!"no built-in module '{specifier}'" ::
    (setting.templateCandidates specifier).map fun p => s!"no file '{p.text}'")

/-- Runs the script of a file whose requests are served by `serve`. -/
def runFile (setting : Setting) (serve : Request → Eval Value) (p : Path) : Eval Value := do
  setting.execute serve (← setting.load p)

/-- Looks a specifier up among the built-in modules and then under the templates. -/
def ownModule (setting : Setting) (serve : Request → Eval Value) (specifier : String) :
    Eval OwnModule :=
  match builtinModule? specifier with
  | some module => OwnModule.loaded <$> module
  | none =>
    match setting.searchPath specifier with
    | some p => OwnModule.loaded <$> setting.runFile serve p
    | none => pure (.notFound (setting.notFoundText specifier))

/-- The loader of the script language. -/
def loader (setting : Setting) (serve : Request → Eval Value) : Loader where
  run := setting.runFile serve
  own := setting.ownModule serve
  locate := setting.searchPath

end Setting

end ScriptBuild
