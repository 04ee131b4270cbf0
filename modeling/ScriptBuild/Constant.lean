import ScriptBuild.Value

/-!
# Constants

The values that have a form outside of scripts: integers and strings. A header defines them and an
artefact exports them. `ofValue?_eq_some_iff` says that they are the values of those two types.
-/

namespace ScriptBuild

/-- A value that has a form outside of scripts. -/
inductive Constant where
  | int (value : Int64)
  | str (text : String)
  deriving DecidableEq, Repr

namespace Constant

/-- A constant as a value. -/
def toValue : Constant → Value
  | int n => .int n
  | str s => .str s

/-- The constant that a value is. -/
def ofValue? : Value → Option Constant
  | .int n => some (int n)
  | .str s => some (str s)
  | _ => none

theorem ofValue?_eq_some_iff {v : Value} {c : Constant} : ofValue? v = some c ↔ v = c.toValue := by
  cases v <;> cases c <;> simp [ofValue?, toValue]

end Constant

end ScriptBuild
