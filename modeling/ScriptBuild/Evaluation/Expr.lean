import ScriptBuild.Evaluation.Setting
import ScriptBuild.Evaluation.State
import ScriptBuild.Header.Scan
import ScriptBuild.Script.Statement

/-!
# Evaluating expressions

An expression is evaluated in a frame, which holds the chunk's origin, its local names and the
statement that is running, and the way in which requests are served. Requests are served outside of
this module, so the recursion here is on the expression alone.
-/

namespace ScriptBuild

open Script (Builtin Expr Position)

/-- Why a statement fails. -/
inductive EvaluationFault where
  | undefinedName (name : String)
  /-- A value of this type has no fields. -/
  | noFields (typeName field : String)
  /-- A value of this type cannot be exported. -/
  | notExportable (name typeName : String)
  /-- A value of this type is no link flag. -/
  | notLinkable (typeName : String)
  /-- The first argument of the function is no string. -/
  | stringExpected (function : Builtin)
  /-- The second argument of the function is no flag and no list of flags. -/
  | flagsExpected (function : Builtin) (typeName : String)
  /-- The argument with this number is no table. -/
  | tableExpected (number : Nat) (found : String)
  | header (error : HeaderError)
  /-- There is no function of this name. -/
  | unknownFunction (name : String)
  deriving DecidableEq, Repr

/-- The wording of a fault. -/
def EvaluationFault.message : EvaluationFault → String
  | undefinedName name => s!"undefined name '{name}'"
  | noFields typeName field => s!"cannot index a {typeName} value with '{field}'"
  | notExportable name typeName =>
    s!"cannot export '{name}': a {typeName} value has no native representation"
  | notLinkable typeName => s!"link expects a string, got {typeName}"
  | stringExpected function => s!"bad argument #1 to '{function.name}' (string expected)"
  | flagsExpected function typeName =>
    s!"bad argument #2 to '{function.name}' (list of flags expected, got {typeName})"
  | tableExpected number found =>
    s!"bad argument #{number} to 'assign' (table expected, got {found})"
  | header error => error.message
  | unknownFunction name => s!"unknown function '{name}'"

/-- What an expression is evaluated in. -/
structure Frame where
  setting : Setting
  /-- Serves the requests for modules. -/
  serve : Request → Eval Value
  /-- The file of the chunk. -/
  origin : Option Path
  /-- The local names, the newest first. -/
  locals : List (String × Value)
  /-- The position of the statement that is running. -/
  position : Position

namespace Frame

/-- The location of the running statement. -/
def location (f : Frame) : SourceLocation :=
  ⟨f.origin.getD ⟨"<string>"⟩, f.position⟩

/-- The directory of the chunk. -/
def directory (f : Frame) : Option Path :=
  f.origin.bind Path.parent?

/-- Stops at the running statement. -/
def fail {α : Type} (f : Frame) (fault : EvaluationFault) : Eval α :=
  Eval.fail (.evaluation fault.message (some f.location))

/-- The outcome of a computation that fails at the running statement. -/
def lift {α : Type} (f : Frame) : Except EvaluationFault α → Eval α
  | .ok a => pure a
  | .error fault => f.fail fault

/-- The value of a name: local names hide exported ones. -/
def lookup (f : Frame) (name : String) : Eval Value := do
  match (f.locals.lookup name).or ((Exports.get? (← get).exports name).map Constant.toValue) with
  | some v => pure v
  | none => f.fail (.undefinedName name)

/-- The module that a specifier in the chunk asks for. An error that has no location yet gets that of
the running statement if the chunk has a file. -/
def require (f : Frame) (specifier : String) : Eval Value :=
  let request := f.serve ⟨specifier, f.origin⟩
  if f.origin.isSome then request.mapError (·.locatedAt f.location) else request

end Frame

/-- The fields of tables put over each other, the arguments counted from `number`. -/
def mergeTables (number : Nat) (fields : Fields Value) :
    List Value → Except EvaluationFault (Fields Value)
  | [] => .ok fields
  | .table _ more :: values => mergeTables (number + 1) (Fields.merge fields more) values
  | v :: _ => .error (.tableExpected number v.typeName)

/-- The flags that the second argument of an import of constants gives. -/
def extraFlags (function : Builtin) : Option Value → Except EvaluationFault (List String)
  | none | some .nil => .ok []
  | some (.str flag) => .ok [flag]
  | some (.list _ items) => .ok (items.map Value.display)
  | some v => .error (.flagsExpected function v.typeName)

/-- Merges tables into a new one. -/
def Frame.callAssign (f : Frame) (arguments : List Value) : Eval Value := do
  if arguments = [] then f.fail (.tableExpected 1 "no value")
  let fields ← f.lift (mergeTables 1 [] arguments)
  return .table (← Eval.newInstance) fields

/-- Scans the target of an import of constants: a header by its name, or a header text. -/
def Frame.scan (f : Frame) (function : Builtin) (directories : List Path) (target : String) :
    Except ScanStop HeaderScan :=
  let disk := f.setting.disk
  let arithmetic := f.setting.arithmetic
  if function = .includeText then Header.scanText arithmetic disk directories target f.directory
  else
    match Header.find disk target directories f.directory with
    | .error e => .error (.failed e)
    | .ok path => Header.scanFile arithmetic disk directories path

/-- Imports the constants of a target. Every header read is a dependency. -/
def Frame.importConstants (f : Frame) (function : Builtin) (directories : List Path)
    (target : String) : Eval Value :=
  match f.scan function directories target with
  | .error (.failed e) => f.fail (.header e)
  | .error .overflow => throw .overflow
  | .ok scan => do
    modify fun s => (scan.files.foldl State.record s).log (.headers scan.files)
    return scan.toValue (← Eval.newInstance)

/-- Imports the constants of a header. Its directories are those of the injected flags, of the
second argument and of the chunk. -/
def Frame.callInclude (f : Frame) (function : Builtin) (arguments : List Value) : Eval Value := do
  match arguments with
  | .str target :: more =>
    let extra ← f.lift (extraFlags function more.head?)
    let directories := Header.includeDirectories ((← get).cFlags ++ extra)
    f.importConstants function directories target
  | _ => f.fail (.stringExpected function)

/-- Calls a function. -/
def Frame.callBuiltin (f : Frame) (function : Builtin) (arguments : List Value) : Eval Value :=
  match function with
  | .assign => f.callAssign arguments
  | .includeHeader | .includeText => f.callInclude function arguments

/-- Calls the function of that name, if there is one. -/
def Frame.call (f : Frame) (name : String) (arguments : List Value) : Eval Value :=
  match Builtin.ofName? name with
  | some function => f.callBuiltin function arguments
  | none => f.fail (.unknownFunction name)

mutual

/-- The value of an expression. -/
def Frame.eval (f : Frame) : Expr → Eval Value
  | .nil => pure .nil
  | .bool b => pure (.bool b)
  | .int n => pure (.int n)
  | .str s => pure (.str s)
  | .name name => f.lookup name
  | .field target name => do
    let v ← f.eval target
    match v.field? name with
    | some found => pure found
    | none => f.fail (.noFields v.typeName name)
  | .table fields => do
    let values ← f.evalFields fields
    return .table (← Eval.newInstance) (Fields.ofList values)
  | .require specifier => f.require specifier
  | .call function arguments => do f.call function (← f.evalArguments arguments)

/-- The values of table fields, in the order of the text. -/
def Frame.evalFields (f : Frame) : List (String × Expr) → Eval (List (String × Value))
  | [] => pure []
  | (key, e) :: fields => do
    let v ← f.eval e
    return (key, v) :: (← f.evalFields fields)

/-- The values of arguments, from left to right. -/
def Frame.evalArguments (f : Frame) : List Expr → Eval (List Value)
  | [] => pure []
  | e :: arguments => do
    let v ← f.eval e
    return v :: (← f.evalArguments arguments)

end

end ScriptBuild
