import ScriptBuild.Import.Loader

/-!
# Serving requests

A request is answered from the cache if its key is there. Otherwise the search directories are
asked, if the request has a file as its origin, and then the modules of the loader. A module is put
into the cache when it was loaded; a key that is asked for while it is being loaded is a cycle.

Serving a request may run a script with requests of its own, so `Setting.require` counts the depth
of nesting that is left. `Setting.depth` bounds it by the number of keys that requests can have:
those of the scripts on the file system, next to the files that scripts are loaded from.
-/

namespace ScriptBuild

open Script (Chunk)

/-- What the search directories say to a request. -/
inductive SearchOutcome where
  | loaded (value : Value) (file : Path)
  /-- Nothing; `skipped` says why they were not asked. -/
  | nothing (tried : List Candidate) (skipped : Option String)

namespace Setting

/-- Asks the search directories. A module that they lead to is run, and its file is a dependency. -/
def askDirectories (setting : Setting) (loader : Loader) (r : Request) : Eval SearchOutcome :=
  match r.origin with
  | none => pure (.nothing [] (some "requesting chunk was not loaded from a file"))
  | some file =>
    match setting.resolver.resolve setting.disk r.specifier (some file) with
    | .ok found => do
      let step : ImportStep := ⟨found.path, r.specifier⟩
      modify (·.log (.entered step))
      let v ← (loader.run found.path).mapError (·.importedFrom found.path r.specifier)
      modify fun s => (s.log (.left step)).record found.path
      return .loaded v found.path
    | .error (.exhausted _ _ tried) => pure (.nothing tried none)
    | .error e => pure (.nothing [] (some e.message))

/-- Loads the module that a request asks for. -/
def loadModule (setting : Setting) (loader : Loader) (r : Request) :
    Eval (Value × ModuleSource) := do
  match ← setting.askDirectories loader r with
  | .loaded v file => return (v, .resolved file)
  | .nothing tried skipped =>
    match ← loader.own r.specifier with
    | .loaded v => return (v, .runtime)
    | .notFound text => Eval.fail (.unresolved r.specifier r.origin tried skipped text)

/-- Puts a module into the cache, unless its key is taken; says whether it was new. The file of a
new module that the loader had is a dependency, if `locate` finds it. -/
def register (setting : Setting) (locate : String → Option Path) (m : CachedModule Value)
    (specifier : String) : Eval Bool := do
  match (← get).cache.register? m with
  | none => return false
  | some cache =>
    modify fun s => { s with cache := cache }.log (.registered m.key specifier m.source)
    if m.source = .runtime then
      match (locate specifier).bind fun p => (setting.disk.canonicalize p).toOption with
      | some file => modify (·.record file)
      | none => pure ()
    return true

/-- Serves a request with a loader. -/
def serve (setting : Setting) (loader : Loader) (r : Request) : Eval Value := do
  let s ← get
  match s.cache.get? r.key with
  | some m => return m.value
  | none =>
    if r.key ∈ s.loading then Eval.fail (.cycle (s.loading ++ [r.key]))
    let (v, source) ← (setting.loadModule loader r).loading r.key
    let _ ← setting.register loader.locate ⟨r.key, v, source⟩ r.specifier
    return v

/-- Serves a request of a script, with at most so many requests nested in each other. -/
def require (setting : Setting) : Nat → Request → Eval Value
  | 0, _ => throw .tooDeep
  | depth + 1, r => setting.serve (setting.loader (setting.require depth)) r

/-- The specifiers that the scripts on the file system ask for. -/
def specifiers (setting : Setting) : List String :=
  setting.disk.regularFiles.flatMap fun loc =>
    match setting.disk.content? loc with
    | some (.text source) =>
      match Chunk.ofText source none with
      | .ok c => c.requests
      | .error _ => []
    | _ => []

/-- The specifiers that can be asked for when the given ones are. -/
def reachableSpecifiers (setting : Setting) (specifiers : List String) : List String :=
  specifiers ++ setting.specifiers

/-- The origins that requests can have when the given specifiers are asked for from a given origin:
that origin, and the files that scripts are loaded from. -/
def reachableOrigins (setting : Setting) (specifiers : List String) (origin : Option Path) :
    List (Option Path) :=
  origin :: (setting.disk.regularFiles.map Location.toPath ++
    (setting.reachableSpecifiers specifiers).flatMap setting.templateCandidates).map some

/-- A depth of nesting that is never exceeded when the given specifiers are asked for from a given
origin: one more than there are requests. -/
def depth (setting : Setting) (specifiers : List String) (origin : Option Path) : Nat :=
  (setting.reachableSpecifiers specifiers).length *
    (setting.reachableOrigins specifiers origin).length + 1

/-- Serves a request. -/
def requireModule (setting : Setting) (r : Request) : Eval Value :=
  setting.require (setting.depth [r.specifier] r.origin) r

/-- Serves a request with the bare loader. -/
def requireBare (setting : Setting) (r : Request) : Eval Value :=
  setting.serve .bare r

/-- Runs a chunk. -/
def runChunk (setting : Setting) (c : Chunk) : Eval Value :=
  setting.execute (setting.require (setting.depth c.requests c.origin)) c

/-- Looks a specifier up among the modules of the loader. -/
def importOwn (setting : Setting) (specifier : String) : Eval OwnModule :=
  setting.ownModule (setting.require (setting.depth [specifier] none)) specifier

end Setting

end ScriptBuild
