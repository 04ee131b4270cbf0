import ScriptBuild.Resolution
import ScriptBuild.Script.Position

/-!
# Errors of an import

An error says what went wrong, at which statement, and through which modules it came: the chain of
imports grows from the failing module outwards while the error travels. The report is one text of
several lines.
-/

namespace ScriptBuild

open Script (Position)

/-- A position in a file. -/
structure SourceLocation where
  file : Path
  position : Position
  deriving DecidableEq, Repr

/-- A location in writing. -/
def SourceLocation.describe (loc : SourceLocation) : String :=
  s!"{loc.file.text}:{loc.position.line}:{loc.position.column}"

/-- One step of the chain of imports: the file that was being loaded, and the specifier that asked
for it. -/
structure ImportStep where
  path : Path
  specifier : String
  deriving DecidableEq, Repr

/-- What went wrong. -/
inductive ErrorCause where
  /-- Neither the search directories nor the loader of the runtime have the module. `skipped` says
  why the search directories were not asked, `fallback` where the loader looked. -/
  | unresolved (specifier : String) (origin : Option Path) (tried : List Candidate)
      (skipped : Option String) (fallback : String)
  /-- A module asks for itself by way of the modules under these keys. -/
  | cycle (keys : List String)
  /-- The text of a file is no script. -/
  | parse (message : String) (position : Position)
  /-- A statement failed. -/
  | evaluation (message : String)
  /-- A file cannot be read. -/
  | io (path : Path) (message : String)
  deriving DecidableEq, Repr

/-- An error of an import. -/
structure ModuleError where
  cause : ErrorCause
  location : Option SourceLocation
  chain : List ImportStep
  suggestion : Option String
  deriving DecidableEq, Repr

namespace ModuleError

/-- No file and no built-in module was found. -/
def unresolved (specifier : String) (origin : Option Path) (tried : List Candidate)
    (skipped : Option String) (fallback : String) : ModuleError :=
  ⟨.unresolved specifier origin tried skipped fallback, none, [],
   some "Check the module name, or add its directory with -M or SCRIPTC_PATH"⟩

/-- A module asks for itself. -/
def cycle (keys : List String) : ModuleError :=
  ⟨.cycle keys, none, [],
   some "Review your require statements to break the circular dependency"⟩

/-- A file is no script. -/
def parse (message : String) (loc : SourceLocation) : ModuleError :=
  ⟨.parse message loc.position, some loc, [], none⟩

/-- A statement failed. -/
def evaluation (message : String) (loc : Option SourceLocation) : ModuleError :=
  ⟨.evaluation message, loc, [], none⟩

/-- A file cannot be read. -/
def io (path : Path) (message : String) : ModuleError :=
  ⟨.io path message, none, [], none⟩

/-- The error after it left the file that was loaded for a specifier. -/
def importedFrom (e : ModuleError) (path : Path) (specifier : String) : ModuleError :=
  { e with chain := e.chain ++ [⟨path, specifier⟩] }

/-- The error with a location, unless it has one. -/
def locatedAt (e : ModuleError) (loc : SourceLocation) : ModuleError :=
  { e with location := e.location.or (some loc) }

/-- The lines of the report on an unresolved specifier. -/
def unresolvedLines (specifier : String) (origin : Option Path) (tried : List Candidate)
    (skipped : Option String) (fallback : String) (location : Option SourceLocation) :
    List String :=
  let first := match origin with
    | some file => s!"Module '{specifier}' not found (required from {file.text})"
    | none => s!"Module '{specifier}' not found"
  let place := location.toList.map fun loc => s!"  at {loc.describe}"
  let reason := skipped.toList.map fun why => s!"Search paths not consulted: {why}"
  let paths := if tried = [] then [] else
    "" :: "Attempted paths:" :: tried.map fun c => s!"  - {c.describe}"
  let loader := if fallback = "" then [] else
    "" :: "Default loader:" :: (Text.lines fallback.toList).map fun l => s!"  {String.ofList l}"
  first :: place ++ reason ++ paths ++ loader

/-- The lines of the report that say what went wrong. -/
def causeLines (e : ModuleError) : List String :=
  match e.cause with
  | .unresolved specifier origin tried skipped fallback =>
    unresolvedLines specifier origin tried skipped fallback e.location
  | .cycle keys =>
    let first := match e.location with
      | some loc => s!"Circular dependency detected at {loc.describe}:"
      | none => "Circular dependency detected:"
    [first, " -> ".intercalate keys]
  | .parse message position =>
    let first := match e.location with
      | some loc => s!"Parse error at {loc.file.text}:{position.line}:{position.column}"
      | none => s!"Parse error at line {position.line}, column {position.column}"
    [first, message]
  | .evaluation message =>
    let first := match e.location with
      | some loc => s!"Runtime error at {loc.describe}"
      | none => "Runtime error"
    [first, message]
  | .io path message => [s!"IO error reading '{path.text}': {message}"]

/-- The numbered lines of the chain of imports, counted from `number`. -/
def chainLines (number : Nat) : List ImportStep → List String
  | [] => []
  | step :: steps =>
    s!"  {number}. {step.path.text} (required as '{step.specifier}')" ::
      chainLines (number + 1) steps

/-- The lines of the whole report. -/
def lines (e : ModuleError) : List String :=
  let chain := if e.chain = [] then [] else "" :: "Dependency chain:" :: chainLines 1 e.chain
  let advice := (e.suggestion.toList.map fun s => ["", s!"Suggestion: {s}"]).flatten
  e.causeLines ++ chain ++ advice

/-- The report, each of its lines ended by a line feed. -/
def message (e : ModuleError) : String :=
  String.join (e.lines.map (· ++ "\n"))

end ModuleError

end ScriptBuild
