import ScriptBuild.FileSystem.Basic

/-!
# Dependency files

A dependency file is one line that build tools read back: the target, a colon and the files that the
target was made from. Blanks, number signs and dollar signs in a path are escaped. With a root
directory all paths are written relative to it. `escape_append` says that a path is escaped
character by character.
-/

namespace ScriptBuild

/-- Why a dependency file was not made. -/
inductive DepfileError where
  /-- The file cannot be written. -/
  | write (path : Path) (cause : OsError)
  /-- A path has no absolute form. -/
  | absolute (path : Path) (cause : OsError)
  deriving DecidableEq, Repr

/-- The wording of a failure. -/
def DepfileError.message : DepfileError → String
  | write path cause => s!"failed to open depfile '{path.text}' for writing: {cause.message}"
  | absolute path cause => s!"cannot make '{path.text}' absolute: {cause.message}"

namespace Depfile

/-- A character of a path as it is written. -/
def escapeChar (c : Char) : List Char :=
  if c = ' ' then ['\\', ' ']
  else if c = '#' then ['\\', '#']
  else if c = '$' then ['$', '$']
  else [c]

/-- A path as it is written. -/
def escape (cs : List Char) : List Char :=
  cs.flatMap escapeChar

theorem escape_append (as bs : List Char) : escape (as ++ bs) = escape as ++ escape bs :=
  List.flatMap_append

/-- The absolute form of a path. -/
def absolute (disk : FileSystem) (p : Path) : Except DepfileError Path :=
  (disk.absolute p).mapError (.absolute p)

/-- The path that is written for a file: relative to the root, if there is one. -/
def shown (disk : FileSystem) (root : Option Path) (p : Path) : Except DepfileError Path :=
  match root with
  | none => .ok p
  | some r => (absolute disk p).map (·.relativeTo r)

/-- The line for a target and the files that it was made from, all of them texts: what is no text
would be written as it is shown. -/
def render (disk : FileSystem) (target : Path) (dependencies : List Path) (root : Option Path) :
    Except DepfileError String := do
  let root ← root.mapM (absolute disk)
  let target ← shown disk root target
  let dependencies ← dependencies.mapM (shown disk root)
  let written (p : Path) := escape p.text.toList
  return String.ofList (written target ++ ':' :: dependencies.flatMap (' ' :: written ·) ++ ['\n'])

/-- The file system after the line was written to a file. -/
def emit (disk : FileSystem) (depfile target : Path) (dependencies : List Path)
    (root : Option Path) : Except DepfileError FileSystem := do
  let line ← render disk target dependencies root
  (disk.write depfile (.text line)).mapError (.write depfile)

end Depfile

end ScriptBuild
