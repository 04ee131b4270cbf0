import ScriptBuild.Fields
import ScriptBuild.Text.Numeral

/-!
# Values

What expressions evaluate to. Lists and tables are instances: each carries the number that it got
when it was made, and two of them are the same only if they have the same number. All other values
are the same if they are equal. `sameInstance_self` says that a value is the same as itself.
-/

namespace ScriptBuild

/-- A value of the script language. -/
inductive Value where
  | nil
  | bool (value : Bool)
  | int (value : Int64)
  | str (text : String)
  | list (number : Nat) (items : List Value)
  | table (number : Nat) (fields : List (String × Value))
  deriving Inhabited, Repr

namespace Value

/-- The name of a value's type in a message. -/
def typeName : Value → String
  | nil => "nil"
  | bool _ => "boolean"
  | int _ => "integer"
  | str _ => "string"
  | list _ _ => "list"
  | table _ _ => "table"

mutual

/-- A value in writing. -/
def display : Value → String
  | nil => "nil"
  | bool true => "true"
  | bool false => "false"
  | int n => Text.decimal n
  | str s => s
  | list _ items => "[" ++ ", ".intercalate (displayItems items) ++ "]"
  | table _ fields => "\x7b" ++ ", ".intercalate (displayFields fields) ++ "\x7d"

/-- The items of a list in writing. -/
def displayItems : List Value → List String
  | [] => []
  | v :: items => v.display :: displayItems items

/-- The fields of a table in writing. -/
def displayFields : List (String × Value) → List String
  | [] => []
  | (key, v) :: fields => (key ++ " = " ++ v.display) :: displayFields fields

end

/-- The value under a key of a table, `nil` if there is none. Only a table has fields. -/
def field? (v : Value) (key : String) : Option Value :=
  match v with
  | table _ fields => some ((Fields.get? fields key).getD nil)
  | _ => none

/-- The same instance of a list or a table, or equal values of any other type. -/
def sameInstance : Value → Value → Bool
  | nil, nil => true
  | bool a, bool b => a == b
  | int a, int b => a == b
  | str a, str b => a == b
  | list a _, list b _ => a == b
  | table a _, table b _ => a == b
  | _, _ => false

mutual

/-- The value with new numbers for its instances, counted up from `next`, and the number after
them. -/
def renew (next : Nat) : Value → Value × Nat
  | list _ items =>
    let renewed := renewItems next items
    (list renewed.2 renewed.1, renewed.2 + 1)
  | table _ fields =>
    let renewed := renewFields next fields
    (table renewed.2 renewed.1, renewed.2 + 1)
  | v => (v, next)

/-- The items of a list with new numbers for their instances. -/
def renewItems (next : Nat) : List Value → List Value × Nat
  | [] => ([], next)
  | v :: items =>
    let first := v.renew next
    let rest := renewItems first.2 items
    (first.1 :: rest.1, rest.2)

/-- The fields of a table with new numbers for their instances. -/
def renewFields (next : Nat) : List (String × Value) → List (String × Value) × Nat
  | [] => ([], next)
  | (key, v) :: fields =>
    let first := v.renew next
    let rest := renewFields first.2 fields
    ((key, first.1) :: rest.1, rest.2)

end

theorem sameInstance_self (v : Value) : v.sameInstance v = true := by
  cases v <;> simp [sameInstance]

end Value

end ScriptBuild
