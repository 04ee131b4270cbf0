import ScriptBuild.Script.Chunk

/-!
# Reading statements with a cursor

The tokens of a script with its end behind them, read by a cursor that is moved from one to the next
and stays at the end once it is there. The readers follow the grammar with loops, so nothing but the
tokens makes them stop: the rounds of a loop and the depth of the grammar are counted, and a count
that runs out is an outcome of its own, as is a look behind the end.
-/

namespace ScriptBuild.Script

/-- A token of a script, or its end, with the position. -/
structure Slot where
  token : Option Token
  position : Position
  deriving DecidableEq, Repr

/-- A token as a slot. -/
def Placed.slot (t : Placed) : Slot :=
  ⟨some t.token, t.position⟩

/-- The tokens, and the end of the script behind them. -/
def Tokens.slots (tokens : Tokens) : List Slot :=
  tokens.list.map Placed.slot ++ [⟨none, tokens.finish⟩]

/-- The slots of a text that starts at position `p`: the tokens one after the other, and the end where
no token is left. -/
def slotsFrom (p : Position) (cs : List Char) : Except SyntaxError (List Slot) :=
  match h : skipLayout false p cs with
  | ⟨q, []⟩ => .ok [⟨none, q⟩]
  | ⟨q, c :: text⟩ =>
    match hr : lexeme q c text with
    | .error e => .error e
    | .ok (token, rest) =>
      have := lexeme_shorter h hr
      (slotsFrom rest.position rest.text).map (⟨some token, q⟩ :: ·)
termination_by cs.length

/-- Why a reader with a cursor stops without a result. -/
inductive Halt where
  | fault (e : SyntaxError)
  /-- The cursor is at none of the slots. -/
  | outside
  /-- A loop or the grammar goes on further than was counted. -/
  | unfinished
  deriving DecidableEq, Repr

/-- What a round of a loop comes to: another round, or the result of the loop. -/
inductive Round (α β : Type) where
  | again (a : α)
  | done (b : β)

namespace Cursor

/-- A reader moves a cursor along the slots. -/
abbrev Reader (α : Type) : Type := StateT Nat (Except Halt) α

variable {α β : Type}

/-- Stops without a result. -/
def halt (h : Halt) : Reader α := fun _ => .error h

/-- Reports a fault at a slot. -/
def refuse (s : Slot) (fault : SyntaxFault) : Reader α :=
  halt (.fault ⟨fault, s.position⟩)

/-- Goes from round to round, through at most so many. -/
def loop (round : α → Reader (Round α β)) : Nat → α → Reader β
  | 0, _ => halt .unfinished
  | n + 1, a => do
    match ← round a with
    | .again a => loop round n a
    | .done b => return b

variable (slots : List Slot)

/-- The slot at the cursor. -/
def peek : Reader Slot := fun pos =>
  match slots[pos]? with
  | some s => .ok (s, pos)
  | none => .error .outside

/-- The slot at the cursor, which goes on to the next one unless this is the last. -/
def advance : Reader Slot := do
  let s ← peek slots
  fun pos => .ok (s, if pos < slots.length - 1 then pos + 1 else pos)

/-- Takes the given mark. -/
def expect (m : Mark) (what : Expectation) : Reader Unit := do
  let s ← advance slots
  if s.token = some (.mark m) then return () else refuse s (.expected what)

/-- Takes a word that is no keyword. -/
def name : Reader String := do
  let s ← advance slots
  match s.token with
  | some (.word w) => if isKeyword w then refuse s (.expected .name) else return w
  | _ => refuse s (.expected .name)

/-- Takes an expression and the parenthesis that closes it. -/
def closed (expr : Reader Expr) : Reader Expr := do
  let e ← expr
  expect slots .closeParen .closeParen
  return e

/-- Takes one argument, with or without parentheses. -/
def argument (expr : Reader Expr) : Reader Expr := do
  if (← peek slots).token = some (.mark .openParen) then
    let _ ← advance slots
    closed slots expr
  else expr

/-- Goes on behind an entry of a list, over a separator or in front of the mark that closes the
list. -/
def separated (separators : List Mark) (close : Mark) (what : Expectation) (taken : α) :
    Reader (Round α β) := do
  let s ← peek slots
  if ∃ m ∈ separators, s.token = some (.mark m) then
    let _ ← advance slots
    return .again taken
  else if s.token = some (.mark close) then return .again taken
  else refuse s (.expected what)

/-- One more entry of a list behind those that were taken. The mark that closes the list ends the
loop. -/
def entryRound (separators : List Mark) (close : Mark) (what : Expectation) (entry : Reader α)
    (taken : List α) : Reader (Round (List α) (List α)) := do
  if (← peek slots).token = some (.mark close) then
    let _ ← advance slots
    return .done taken
  else
    let a ← entry
    separated slots separators close what (taken ++ [a])

/-- One more argument of a function. -/
def itemRound (expr : Reader Expr) : List Expr → Reader (Round (List Expr) (List Expr)) :=
  entryRound slots [.comma] .closeParen .commaOrCloseParen expr

/-- Takes one argument, or any number in parentheses. -/
def arguments (n : Nat) (expr : Reader Expr) : Reader (List Expr) := do
  if (← peek slots).token = some (.mark .openParen) then
    let _ ← advance slots
    loop (itemRound slots expr) n []
  else
    let e ← expr
    return [e]

/-- Takes a name, an equals sign and an expression. -/
def binding (expr : Reader Expr) : Reader (String × Expr) := do
  let x ← name slots
  expect slots .equals .equals
  let e ← expr
  return (x, e)

/-- One more field of a table. -/
def fieldRound (expr : Reader Expr) :
    List (String × Expr) → Reader (Round (List (String × Expr)) (List (String × Expr))) :=
  entryRound slots [.comma, .semicolon] .closeBrace .commaOrCloseBrace (binding slots expr)

/-- Takes the fields of a table and the brace that closes them. -/
def table (n : Nat) (expr : Reader Expr) : Reader Expr := do
  let fields ← loop (fieldRound slots expr) n []
  return .table fields

/-- Takes an expression that begins with its own first token. -/
def primary (n : Nat) (expr : Reader Expr) : Reader Expr := do
  let s ← advance slots
  match s.token with
  | some (.int k) => return .int k
  | some (.str t) => return .str t
  | some (.mark .openBrace) => table slots n expr
  | some (.mark .openParen) => closed slots expr
  | some (.word w) =>
    if w = "nil" then return .nil
    else if w = "true" then return .bool true
    else if w = "false" then return .bool false
    else if w = "require" then
      match ← argument slots expr with
      | .str spec => return .require spec
      | _ => refuse s .requireArgument
    else
      if (Builtin.ofName? w).isSome then
        let es ← arguments slots n expr
        return .call w es
      else if isKeyword w then refuse s (.word w) else return .name w
  | _ => refuse s (.expected .expression)

/-- One more field access of an expression. Anything but a dot ends the loop. -/
def accessRound (e : Expr) : Reader (Round Expr Expr) := do
  if (← peek slots).token = some (.mark .dot) then
    let _ ← advance slots
    let x ← name slots
    return .again (.field e x)
  else return .done e

/-- Takes an expression, with at most so many of them one inside of the other. -/
def expr : Nat → Reader Expr
  | 0 => halt .unfinished
  | n + 1 => do
    let e ← primary slots n (expr n)
    loop (accessRound slots) n e

/-- Takes what a `return` gives back: nothing at the end of the script or before a semicolon. -/
def returned (n : Nat) : Reader Action := do
  match (← peek slots).token with
  | none | some (.mark .semicolon) => return .return .nil
  | _ =>
    let e ← expr slots n
    return .return e

/-- Takes the action of a statement that begins at the given slot. -/
def action (n : Nat) (s : Slot) : Reader Action := do
  match s.token with
  | some (.word w) =>
    if w = "local" then
      let _ ← advance slots
      let b ← binding slots (expr slots n)
      return .local b.1 b.2
    else if w = "export" then
      let _ ← advance slots
      let b ← binding slots (expr slots n)
      return .export b.1 b.2
    else if w = "link" then
      let _ ← advance slots
      let e ← argument slots (expr slots n)
      return .link e
    else if w = "return" then
      let _ ← advance slots
      returned slots n
    else if w = "require" || (Builtin.ofName? w).isSome then
      let e ← expr slots n
      return .evaluate e
    else refuse s (.word w)
  | _ => refuse s (.expected .statement)

/-- Takes a statement. -/
def statement (n : Nat) : Reader Statement := do
  let s ← peek slots
  let a ← action slots n s
  return ⟨a, s.position⟩

/-- One more semicolon. Anything else ends the loop. -/
def semicolonRound (_ : Unit) : Reader (Round Unit Unit) := do
  if (← peek slots).token = some (.mark .semicolon) then
    let _ ← advance slots
    return .again ()
  else return .done ()

/-- One more statement behind those that were taken, with semicolons in front of it. The end of the
script ends the loop. -/
def statementRound (n : Nat) (statements : List Statement) :
    Reader (Round (List Statement) (List Statement)) := do
  loop (semicolonRound slots) n ()
  let s ← peek slots
  if s.token = none then return .done statements
  else if statements.getLast?.any (·.action.isReturn) then refuse s .afterReturn
  else
    let statement ← statement slots n
    return .again (statements ++ [statement])

/-- Takes the statements of a script. -/
def script (n : Nat) : Reader (List Statement) :=
  loop (statementRound slots n) n []

end Cursor

end ScriptBuild.Script
