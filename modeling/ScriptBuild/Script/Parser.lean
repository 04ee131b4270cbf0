import ScriptBuild.Script.Statement
import ScriptBuild.Script.Token

/-!
# Reading statements

The grammar of scripts, by descent on the token list. Every phrase takes at least one token, which
its result carries as a proof, so the descent ends. A fault is reported at the first token that does
not fit, or at the end of the script.
-/

namespace ScriptBuild.Script

/-- The words that name no value. -/
def keywords : List String :=
  ["local", "export", "link", "return", "require", "includec", "includecstring", "assign", "nil",
   "true", "false"]

/-- The word is a keyword. -/
def isKeyword (word : String) : Bool :=
  keywords.contains word

/-- A phrase read off the front of a token list, and the shorter list that it leaves. -/
structure Parsed (α : Type) (ts : List Placed) where
  value : α
  rest : List Placed
  shorter : rest.length < ts.length

namespace Parsed

/-- Another value for the same tokens. -/
def map {α β : Type} {ts : List Placed} (f : α → β) (r : Parsed α ts) : Parsed β ts :=
  ⟨f r.value, r.rest, r.shorter⟩

/-- The phrase together with the tokens taken before it. -/
def after {α : Type} {ts us : List Placed} (h : us.length < ts.length) (r : Parsed α us) :
    Parsed α ts :=
  ⟨r.value, r.rest, Nat.lt_trans r.shorter h⟩

end Parsed

/-- The position of the next token, or of the end of the script. -/
def place (finish : Position) : List Placed → Position
  | [] => finish
  | t :: _ => t.position

/-- The fault that something else was called for here. -/
def expected (finish : Position) (what : Expectation) (ts : List Placed) : SyntaxError :=
  ⟨.expected what, place finish ts⟩

/-- Takes the given mark, if it comes next. -/
def takeMark? (m : Mark) : (ts : List Placed) → Option (Parsed Unit ts)
  | [] => none
  | t :: rest => if t.token = .mark m then some ⟨(), rest, Nat.lt_succ_self _⟩ else none

/-- Takes the given mark, which has to come next. -/
def takeMark (finish : Position) (m : Mark) (what : Expectation) (ts : List Placed) :
    Except SyntaxError (Parsed Unit ts) :=
  match takeMark? m ts with
  | some taken => .ok taken
  | none => .error (expected finish what ts)

/-- Takes a word that is no keyword. -/
def takeName (finish : Position) : (ts : List Placed) → Except SyntaxError (Parsed String ts)
  | ⟨.word w, p⟩ :: rest =>
    if isKeyword w then .error (expected finish .name (⟨.word w, p⟩ :: rest))
    else .ok ⟨w, rest, Nat.lt_succ_self _⟩
  | ts => .error (expected finish .name ts)

/-- Takes the field accesses that follow an expression. -/
def takeFields (finish : Position) (e : Expr) :
    (ts : List Placed) → Except SyntaxError { r : Expr × List Placed // r.2.length ≤ ts.length }
  | [] => .ok ⟨(e, []), Nat.le_refl _⟩
  | t :: rest =>
    if t.token = .mark .dot then
      match takeName finish rest with
      | .error fault => .error fault
      | .ok ⟨name, rest', h⟩ =>
        match takeFields finish (.field e name) rest' with
        | .error fault => .error fault
        | .ok ⟨r, h'⟩ => .ok ⟨r, by simp only [List.length_cons]; omega⟩
    else .ok ⟨(e, t :: rest), Nat.le_refl _⟩
termination_by ts => ts.length

/-- A reader of expressions off the lists of fewer than `n` tokens. -/
abbrev ExprReader (n : Nat) : Type :=
  (ts : List Placed) → ts.length < n → Except SyntaxError (Parsed Expr ts)

/-- Reads arguments up to the parenthesis that closes them. A comma may follow the last. -/
def parseItems (finish : Position) {n : Nat} (expr : ExprReader n) (ts : List Placed)
    (below : ts.length < n) : Except SyntaxError (Parsed (List Expr) ts) :=
  match takeMark? .closeParen ts with
  | some ⟨_, rest, h⟩ => .ok ⟨[], rest, h⟩
  | none =>
    match expr ts below with
    | .error fault => .error fault
    | .ok ⟨e, rest, h⟩ =>
      match takeMark? .comma rest with
      | some ⟨_, rest₁, h₁⟩ =>
        match parseItems finish expr rest₁ (by omega) with
        | .error fault => .error fault
        | .ok ⟨items, rest₂, h₂⟩ => .ok ⟨e :: items, rest₂, by omega⟩
      | none =>
        match takeMark finish .closeParen .commaOrCloseParen rest with
        | .error fault => .error fault
        | .ok ⟨_, rest₁, h₁⟩ => .ok ⟨[e], rest₁, by omega⟩
termination_by ts.length
decreasing_by omega

/-- Reads table fields up to the brace that closes them. A comma or a semicolon may follow the
last. -/
def parseFields (finish : Position) {n : Nat} (expr : ExprReader n) (ts : List Placed)
    (below : ts.length < n) : Except SyntaxError (Parsed (List (String × Expr)) ts) :=
  match takeMark? .closeBrace ts with
  | some ⟨_, rest, h⟩ => .ok ⟨[], rest, h⟩
  | none =>
    match takeName finish ts with
    | .error fault => .error fault
    | .ok ⟨key, rest, h⟩ =>
      match takeMark finish .equals .equals rest with
      | .error fault => .error fault
      | .ok ⟨_, rest₁, h₁⟩ =>
        match expr rest₁ (by omega) with
        | .error fault => .error fault
        | .ok ⟨e, rest₂, h₂⟩ =>
          match (takeMark? .comma rest₂).or (takeMark? .semicolon rest₂) with
          | some ⟨_, rest₃, h₃⟩ =>
            match parseFields finish expr rest₃ (by omega) with
            | .error fault => .error fault
            | .ok ⟨fields, rest₄, h₄⟩ => .ok ⟨(key, e) :: fields, rest₄, by omega⟩
          | none =>
            match takeMark finish .closeBrace .commaOrCloseBrace rest₂ with
            | .error fault => .error fault
            | .ok ⟨_, rest₃, h₃⟩ => .ok ⟨[(key, e)], rest₃, by omega⟩
termination_by ts.length
decreasing_by omega

/-- Reads an expression and the parenthesis that closes it. -/
def parseClosed (finish : Position) {n : Nat} (expr : ExprReader n) (ts : List Placed)
    (below : ts.length < n) : Except SyntaxError (Parsed Expr ts) :=
  match expr ts below with
  | .error fault => .error fault
  | .ok ⟨e, rest, h⟩ =>
    match takeMark finish .closeParen .closeParen rest with
    | .error fault => .error fault
    | .ok ⟨_, rest₁, h₁⟩ => .ok ⟨e, rest₁, Nat.lt_trans h₁ h⟩

/-- Reads the one argument of a function, with or without parentheses. -/
def parseArgument (finish : Position) {n : Nat} (expr : ExprReader n) (ts : List Placed)
    (below : ts.length < n) : Except SyntaxError (Parsed Expr ts) :=
  match takeMark? .openParen ts with
  | some ⟨_, rest, h⟩ =>
    (parseClosed finish expr rest (Nat.lt_trans h below)).map (·.after h)
  | none => expr ts below

/-- Reads the arguments of a function: one, or any number in parentheses. -/
def parseArguments (finish : Position) {n : Nat} (expr : ExprReader n) (ts : List Placed)
    (below : ts.length < n) : Except SyntaxError (Parsed (List Expr) ts) :=
  match takeMark? .openParen ts with
  | some ⟨_, rest, h⟩ =>
    (parseItems finish expr rest (Nat.lt_trans h below)).map (·.after h)
  | none => (expr ts below).map (·.map ([·]))

/-- Reads an expression that starts with its own first token. -/
def parsePrimary (finish : Position) :
    (ts : List Placed) → ExprReader ts.length → Except SyntaxError (Parsed Expr ts)
  | [], _ => .error (expected finish .expression [])
  | t :: rest, expr =>
    have below : rest.length < (t :: rest).length := Nat.lt_succ_self _
    match t.token with
    | .int n => .ok ⟨.int n, rest, below⟩
    | .str s => .ok ⟨.str s, rest, below⟩
    | .mark .openBrace =>
      (parseFields finish expr rest below).map fun r => (r.map .table).after below
    | .mark .openParen => (parseClosed finish expr rest below).map (·.after below)
    | .word w =>
      if w = "nil" then .ok ⟨.nil, rest, below⟩
      else if w = "true" then .ok ⟨.bool true, rest, below⟩
      else if w = "false" then .ok ⟨.bool false, rest, below⟩
      else if w = "require" then
        match parseArgument finish expr rest below with
        | .error fault => .error fault
        | .ok ⟨.str spec, rest', h⟩ => .ok ⟨.require spec, rest', Nat.lt_trans h below⟩
        | .ok _ => .error ⟨.requireArgument, t.position⟩
      else if (Builtin.ofName? w).isSome then
        (parseArguments finish expr rest below).map fun r => (r.map (.call w)).after below
      else if isKeyword w then .error ⟨.word w, t.position⟩
      else .ok ⟨.name w, rest, below⟩
    | _ => .error (expected finish .expression (t :: rest))

/-- Reads an expression: a primary one and the field accesses that follow it. -/
def parseExpr (finish : Position) (ts : List Placed) : Except SyntaxError (Parsed Expr ts) :=
  match parsePrimary finish ts (fun ts' _ => parseExpr finish ts') with
  | .error fault => .error fault
  | .ok ⟨e, rest, h⟩ =>
    match takeFields finish e rest with
    | .error fault => .error fault
    | .ok ⟨(e', rest'), h'⟩ => .ok ⟨e', rest', Nat.lt_of_le_of_lt h' h⟩
termination_by ts.length
decreasing_by assumption

/-- Reads a name, an equals sign and an expression. -/
def parseBinding (finish : Position) (ts : List Placed) :
    Except SyntaxError (Parsed (String × Expr) ts) :=
  match takeName finish ts with
  | .error fault => .error fault
  | .ok ⟨name, rest, h⟩ =>
    match takeMark finish .equals .equals rest with
    | .error fault => .error fault
    | .ok ⟨_, rest₁, h₁⟩ =>
      match parseExpr finish rest₁ with
      | .error fault => .error fault
      | .ok ⟨e, rest₂, h₂⟩ => .ok ⟨(name, e), rest₂, by omega⟩

/-- Reads what a `return` gives back: nothing at the end of the script or before a semicolon. -/
def parseReturn (finish : Position) (t : Placed) (rest : List Placed) :
    Except SyntaxError (Parsed Action (t :: rest)) :=
  if rest = [] || (takeMark? .semicolon rest).isSome then
    .ok ⟨.return .nil, rest, Nat.lt_succ_self _⟩
  else (parseExpr finish rest).map fun r => (r.map .return).after (Nat.lt_succ_self _)

/-- Reads the action of a statement. -/
def parseAction (finish : Position) : (ts : List Placed) → Except SyntaxError (Parsed Action ts)
  | [] => .error (expected finish .statement [])
  | t :: rest =>
    have below : rest.length < (t :: rest).length := Nat.lt_succ_self _
    match t.token with
    | .word w =>
      if w = "local" then
        (parseBinding finish rest).map fun r => (r.map fun b => .local b.1 b.2).after below
      else if w = "export" then
        (parseBinding finish rest).map fun r => (r.map fun b => .export b.1 b.2).after below
      else if w = "link" then
        (parseArgument finish (fun ts _ => parseExpr finish ts) rest below).map fun r =>
          (r.map .link).after below
      else if w = "return" then parseReturn finish t rest
      else if w = "require" || (Builtin.ofName? w).isSome then
        (parseExpr finish (t :: rest)).map (·.map .evaluate)
      else .error ⟨.word w, t.position⟩
    | _ => .error (expected finish .statement (t :: rest))

/-- Reads statements to the end of the script, with any number of semicolons between them. After a
`return` none may follow. -/
def parseStatements (finish : Position) (returned : Bool) :
    List Placed → Except SyntaxError (List Statement)
  | [] => .ok []
  | t :: rest =>
    if t.token = .mark .semicolon then parseStatements finish returned rest
    else if returned then .error ⟨.afterReturn, t.position⟩
    else
      match parseAction finish (t :: rest) with
      | .error fault => .error fault
      | .ok ⟨action, rest', _⟩ =>
        (parseStatements finish action.isReturn rest').map (⟨action, t.position⟩ :: ·)
termination_by ts => ts.length
decreasing_by all_goals simp only [List.length_cons]; omega

end ScriptBuild.Script
