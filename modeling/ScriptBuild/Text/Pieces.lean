/-!
# Pieces of a text

A text is cut into lines, or at each occurrence of a separator. A line loses the line feed that ends
it, and one carriage return before that.
-/

namespace ScriptBuild.Text

/-- The pieces of a text between the occurrences of a separator: one more than there are
occurrences, some of them perhaps empty. -/
def pieces (separator : Char) (s : String) : List String :=
  (s.toList.splitOn separator).map String.ofList

/-- The pieces of a text between the occurrences of a separator, without the empty ones. -/
def entries (separator : Char) (s : String) : List String :=
  (pieces separator s).filter (· ≠ "")

/-- A line without the one carriage return that may end it. -/
def dropCarriageReturn (cs : List Char) : List Char :=
  if cs.getLast? = some '\r' then cs.dropLast else cs

/-- The lines among the pieces between line feeds. All but the last piece were ended by a line
feed and lose a carriage return before it; the last is a line only if something stands in it. -/
def linesOfPieces : List (List Char) → List (List Char)
  | [] => []
  | [last] => if last = [] then [] else [last]
  | piece :: more => dropCarriageReturn piece :: linesOfPieces more

/-- The lines of a text. -/
def lines (cs : List Char) : List (List Char) :=
  linesOfPieces (cs.splitOn '\n')

/-- A text with one string put for each occurrence of a character. -/
def substitute (c : Char) (new : List Char) (cs : List Char) : List Char :=
  cs.flatMap fun d => if d = c then new else [d]

end ScriptBuild.Text
