/-!
# Positions in a script

Lines and columns count from one, columns in characters. `afterAll_append` says that the position
after two texts is the one after the second, counted from the position after the first.
-/

namespace ScriptBuild.Script

/-- A place in a script, in front of a character. -/
structure Position where
  line : Nat
  column : Nat
  deriving DecidableEq, Repr

namespace Position

/-- The start of a script. -/
def start : Position := ⟨1, 1⟩

/-- The position after a character. -/
def after (p : Position) (c : Char) : Position :=
  if c = '\n' then ⟨p.line + 1, 1⟩ else ⟨p.line, p.column + 1⟩

/-- The position after a text. -/
def afterAll (p : Position) (cs : List Char) : Position :=
  cs.foldl after p

theorem afterAll_append (p : Position) (as bs : List Char) :
    p.afterAll (as ++ bs) = (p.afterAll as).afterAll bs :=
  List.foldl_append

end Position

end ScriptBuild.Script
