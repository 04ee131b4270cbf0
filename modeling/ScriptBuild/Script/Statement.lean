import ScriptBuild.Script.Position

/-!
# Expressions and statements

What a script is made of. Modules are asked for by a literal specifier, so the requests that a
script can make are known before it runs: `Statement.requests` lists them in the order of the text.
-/

namespace ScriptBuild.Script

/-- The functions of the script language. -/
inductive Builtin where
  /-- Imports the constants of a header file. -/
  | includeHeader
  /-- Imports the constants of a header text. -/
  | includeText
  /-- Merges tables. -/
  | assign
  deriving DecidableEq, Repr

namespace Builtin

/-- The name of a function in a script. -/
def name : Builtin → String
  | includeHeader => "includec"
  | includeText => "includecstring"
  | assign => "assign"

/-- The function that a word names. -/
def ofName? (word : String) : Option Builtin :=
  [includeHeader, includeText, assign].find? (·.name = word)

theorem ofName?_name (f : Builtin) : ofName? f.name = some f := by
  cases f <;> decide

/-- The words that name a function. -/
theorem isSome_ofName? {word : String} :
    (ofName? word).isSome = true ↔ ∃ f : Builtin, f.name = word := by
  constructor
  · intro h
    obtain ⟨f, hf⟩ := Option.isSome_iff_exists.1 h
    have hname := List.find?_some hf
    exact ⟨f, of_decide_eq_true hname⟩
  · rintro ⟨f, rfl⟩
    rw [ofName?_name]
    rfl

end Builtin

/-- An expression. -/
inductive Expr where
  | nil
  | bool (value : Bool)
  | int (value : Int64)
  | str (text : String)
  | name (text : String)
  | field (target : Expr) (name : String)
  | table (fields : List (String × Expr))
  | require (specifier : String)
  /-- Calls a function by its name. -/
  | call (function : String) (arguments : List Expr)
  deriving Repr

/-- What a statement does. -/
inductive Action where
  | local (name : String) (value : Expr)
  | export (name : String) (value : Expr)
  | link (value : Expr)
  | evaluate (value : Expr)
  | return (value : Expr)
  deriving Repr

/-- A statement and the position of its first token. -/
structure Statement where
  action : Action
  position : Position
  deriving Repr

/-- The expression that an action evaluates. -/
def Action.expr : Action → Expr
  | .local _ e | .export _ e | .link e | .evaluate e | .return e => e

/-- The action ends its script. -/
def Action.isReturn : Action → Bool
  | .return _ => true
  | _ => false

mutual

/-- The specifiers that an expression asks for. -/
def Expr.requests : Expr → List String
  | .field target _ => target.requests
  | .table fields => fieldRequests fields
  | .require specifier => [specifier]
  | .call _ arguments => argumentRequests arguments
  | _ => []

/-- The specifiers that the values of table fields ask for. -/
def fieldRequests : List (String × Expr) → List String
  | [] => []
  | (_, e) :: fields => e.requests ++ fieldRequests fields

/-- The specifiers that the arguments of a call ask for. -/
def argumentRequests : List Expr → List String
  | [] => []
  | e :: arguments => e.requests ++ argumentRequests arguments

end

theorem mem_fieldRequests {fields : List (String × Expr)} {specifier : String} :
    specifier ∈ fieldRequests fields ↔ ∃ x ∈ fields, specifier ∈ x.2.requests := by
  induction fields with
  | nil => simp [fieldRequests]
  | cons x fields ih => simp [fieldRequests, ih]

theorem mem_argumentRequests {arguments : List Expr} {specifier : String} :
    specifier ∈ argumentRequests arguments ↔ ∃ e ∈ arguments, specifier ∈ e.requests := by
  induction arguments with
  | nil => simp [argumentRequests]
  | cons e arguments ih => simp [argumentRequests, ih]

/-- The specifiers that a statement asks for. -/
def Statement.requests (s : Statement) : List String :=
  s.action.expr.requests

end ScriptBuild.Script
