import ScriptBuild.Exports
import ScriptBuild.FileSystem.Basic

/-!
# Objects

The object with the exported symbols is built by a library: a module is set up for the machine, each
symbol is declared and then defined, and the finished module is written as bytes. Each of these may
fail. What the library does is a parameter here; `emit` is the order in which it is called.
-/

namespace ScriptBuild

/-- What a symbol is declared as. -/
inductive SymbolKind where
  | function
  | data
  deriving DecidableEq, Repr

/-- An integer is exported as a function that returns it, a string as data. -/
def Constant.kind : Constant → SymbolKind
  | .int _ => .function
  | .str _ => .data

/-- Why the library makes no object. -/
inductive ObjectError where
  /-- A symbol of this name was defined before. -/
  | duplicate (name : String)
  /-- A symbol of this name was declared as another kind. -/
  | incompatible (name : String)
  /-- The module is refused for another reason. -/
  | refused (reason : String)
  /-- There is no code for the machine, or the object cannot be written as bytes. -/
  | target (reason : String)
  deriving DecidableEq, Repr

/-- The wording of a failure. -/
def ObjectError.message : ObjectError → String
  | duplicate name => s!"module error: Duplicate definition of identifier: {name}"
  | incompatible name => s!"module error: Incompatible declaration of identifier: {name}"
  | refused reason => s!"module error: {reason}"
  | target reason => s!"Cranelift error: {reason}"

/-- A library that builds objects. -/
structure ObjectModule where
  State : Type
  /-- A module of this name, optimized or not. -/
  start : String → Bool → Except ObjectError State
  declare : State → String → SymbolKind → Except ObjectError State
  define : State → String → Constant → Except ObjectError State
  /-- What the file of the finished object holds. -/
  finish : State → Except ObjectError Content

namespace ObjectModule

variable (M : ObjectModule)

/-- Declares a symbol and defines it. -/
def emitSymbol (s : M.State) (e : Export) : Except ObjectError M.State :=
  (M.declare s e.name e.value.kind).bind fun s => M.define s e.name e.value

/-- An object with the symbols. -/
def emit (name : String) (exports : Exports) (optimize : Bool) : Except ObjectError Content :=
  ((M.start name optimize).bind fun s => exports.foldlM M.emitSymbol s).bind M.finish

end ObjectModule

end ScriptBuild
