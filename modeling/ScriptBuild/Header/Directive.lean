import ScriptBuild.Header.Literal
import ScriptBuild.Text.Pieces

/-!
# Directives

The lines of a header that matter: those that include another header and those that define a name.
All other lines, and definitions with parameters, are passed over.
-/

namespace ScriptBuild.Header

open Text

/-- A line of a header that matters. -/
inductive Directive where
  /-- Includes a header, by a name in quotes or in angle brackets. -/
  | include (name : String) (quoted : Bool)
  /-- Defines a name by a body, comments and outer blanks left out. -/
  | define (name : String) (body : List Char)
  deriving DecidableEq, Repr

/-- The text behind a word that begins it. -/
def after? (word : String) (cs : List Char) : Option (List Char) :=
  word.toList.isPrefixOf? cs

/-- The character may stand in the name of a definition. -/
def isNameChar (c : Char) : Bool :=
  c.isAlphanum || c == '_'

/-- The inclusion of a target. -/
def includeOf? (target : List Char) : Option Directive :=
  match target with
  | '"' :: rest => some (.include (String.ofList (rest.takeWhile (· ≠ '"'))) true)
  | '<' :: rest => some (.include (String.ofList (rest.takeWhile (· ≠ '>'))) false)
  | _ => none

/-- The definition in what follows the word and its blanks. -/
def defineOf? (rest : List Char) : Option Directive :=
  let name := rest.takeWhile isNameChar
  let body := rest.dropWhile isNameChar
  if name = [] || body.head? == some '(' then none
  else some (.define (String.ofList name) (trim (beforeComment body)))

namespace Directive

/-- The directive on a line. -/
def ofLine? (line : List Char) : Option Directive := do
  let rest ← after? "#" (trimStart line)
  let text := trimStart rest
  match after? "include" text with
  | some target => includeOf? (trim target)
  | none =>
    let body ← after? "define" text
    guard ((body.head?.map isBlank).getD false)
    defineOf? (trimStart body)

/-- The directives of a header, in the order of its lines. -/
def ofText (source : String) : List Directive :=
  (lines source.toList).filterMap ofLine?

end Directive

end ScriptBuild.Header
