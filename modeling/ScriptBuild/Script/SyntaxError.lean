import ScriptBuild.Script.Position

/-!
# Syntax errors

Why a text is no script, and where that showed.
-/

namespace ScriptBuild.Script

/-- What the grammar calls for at a place where something else stands. -/
inductive Expectation where
  | statement
  | expression
  | name
  | equals
  | closeParen
  | commaOrCloseParen
  | commaOrCloseBrace
  deriving DecidableEq, Repr

/-- The words for what the grammar calls for. -/
def Expectation.text : Expectation → String
  | statement => "a statement"
  | expression => "an expression"
  | name => "a name"
  | equals => "'='"
  | closeParen => "')'"
  | commaOrCloseParen => "',' or ')'"
  | commaOrCloseBrace => "',' or '\x7d'"

/-- Why a text is no script. -/
inductive SyntaxFault where
  /-- A dash that starts neither a comment nor a number. -/
  | loneDash
  /-- A character that starts no token. -/
  | character (c : Char)
  /-- An integer that no 64-bit word holds. -/
  | outOfRange (digits : String)
  /-- A string that its line ends first. -/
  | unfinishedString
  /-- A backslash in front of a character that it does not go with. -/
  | escape
  /-- The grammar calls for something else here. -/
  | expected (what : Expectation)
  /-- A word that cannot stand here. -/
  | word (text : String)
  /-- A `require` whose argument is no string literal. -/
  | requireArgument
  /-- A statement after a `return`. -/
  | afterReturn
  deriving DecidableEq, Repr

/-- The wording of a fault. -/
def SyntaxFault.message : SyntaxFault → String
  | loneDash => "unexpected '-'"
  | character c => s!"unexpected character '{c}'"
  | outOfRange digits => s!"integer literal '{digits}' out of range"
  | unfinishedString => "unfinished string"
  | escape => "invalid escape sequence"
  | expected what => s!"expected {what.text}"
  | word text => s!"unexpected '{text}'"
  | requireArgument => "require expects a string literal"
  | afterReturn => "'return' must be the last statement"

/-- A fault and the position at which it is reported. -/
structure SyntaxError where
  fault : SyntaxFault
  position : Position
  deriving DecidableEq, Repr

end ScriptBuild.Script
