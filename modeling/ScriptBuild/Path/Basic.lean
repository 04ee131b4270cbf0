import ScriptBuild.Text.Pieces

/-!
# Paths

A path is a text that names a file. It is kept as it was written: joining puts two texts together
and the parent cuts one off, so that a message shows the path that the user gave. The components
are the reading of a path: repeated and trailing slashes and all `.` but a leading one say
nothing. Main statements: `isAbsolute_join` and `join_of_isAbsolute` say when joining stays
where it was and when it starts anew.

All paths here are texts. A path that is none is known by its bytes only, and shown as a text that
other paths may be shown as too; `Path.Raw` has such paths for the flags, and nothing is said of them
elsewhere, be it of the keys of modules or of dependency files.
-/

namespace ScriptBuild

/-- The text that names a file. -/
structure Path where
  text : String
  deriving DecidableEq, Repr

/-- One step of the way that a path describes. -/
inductive Component where
  /-- Start at the root. -/
  | root
  /-- Stay in the directory. -/
  | current
  /-- Climb to the parent directory. -/
  | up
  /-- Enter the named directory or file. -/
  | name (text : String)
  deriving DecidableEq, Repr

namespace Component

/-- The component that a non-empty piece of a path stands for. -/
def ofPiece (piece : String) : Component :=
  if piece = "." then .current else if piece = ".." then .up else .name piece

/-- A component as a path of its own. -/
def toPath : Component → Path
  | root => ⟨"/"⟩
  | current => ⟨"."⟩
  | up => ⟨".."⟩
  | name text => ⟨text⟩

end Component

namespace Path

/-- The path starts at the root. -/
def isAbsolute (p : Path) : Bool :=
  p.text.toList.head? == some '/'

/-- The path has no text. -/
def isEmpty (p : Path) : Bool :=
  p.text == ""

/-- The texts between the slashes of a path. -/
def pieces (p : Path) : List String :=
  Text.pieces '/' p.text

/-- A piece that says nothing inside a path: an empty one, or a `.`. -/
def isVoid (piece : String) : Bool :=
  piece == "" || piece == "."

/-- A piece that may be the name of a file or directory: one that says something, does not climb, and
holds neither a slash nor a NUL character. -/
def isName (piece : String) : Bool :=
  ! isVoid piece && piece != ".." && ! piece.toList.contains '/' && ! piece.toList.contains '\x00'

/-- The steps that a path describes. A `.` counts only at the very start. -/
def components (p : Path) : List Component :=
  match p.pieces with
  | [] => []
  | first :: body =>
    let start := if p.isAbsolute then [.root] else if first = "" then [] else [.ofPiece first]
    start ++ (body.filter (! isVoid ·)).map .ofPiece

/-- The path that follows `q` from the directory `p`. An absolute `q` forgets `p`; otherwise both
texts are kept, with one slash between them unless `p` is empty or ends in one. -/
def join (p q : Path) : Path :=
  if q.isAbsolute then q
  else if p.isEmpty || p.text.toList.getLast? == some '/' then ⟨p.text ++ q.text⟩
  else ⟨p.text ++ "/" ++ q.text⟩

/-- The path that takes the given steps one after the other. -/
def ofComponents (cs : List Component) : Path :=
  cs.foldl (fun p c => p.join c.toPath) ⟨""⟩

/-- The path without its last component, as far as the text goes; the root and the empty path have
no parent. -/
def parent? (p : Path) : Option Path :=
  match p.pieces with
  | [] => none
  | first :: body =>
    match body.reverse.dropWhile isVoid with
    | [] => if first = "" then none else some ⟨""⟩
    | _ :: before =>
      match (before.dropWhile isVoid).reverse with
      | [] => some ⟨if first = "" then "/" else first⟩
      | kept => some ⟨"/".intercalate (first :: kept)⟩

/-- The name of the file or directory that a path ends in. -/
def fileName? (p : Path) : Option String :=
  match p.components.getLast? with
  | some (.name text) => some text
  | _ => none

/-- What stands after the last dot of the file name, unless that dot begins the name. -/
def extension? (p : Path) : Option String := do
  let name ← p.fileName?
  let parts := Text.pieces '.' name
  guard (parts.length > 1 && parts.dropLast != [""])
  parts.getLast?

/-- The same text followed by a dot and an extension. -/
def withExtension (p : Path) (extension : String) : Path :=
  ⟨p.text ++ "." ++ extension⟩

/-- The paths of a list written with colons; empty entries name nothing. -/
def ofList (s : String) : List Path :=
  (Text.entries ':' s).map Path.mk

theorem join_of_isAbsolute {p q : Path} (h : q.isAbsolute = true) : p.join q = q := by
  simp [join, h]

/-- Following a relative path from an absolute one stays absolute. -/
theorem isAbsolute_join {p q : Path} (h : p.isAbsolute = true) : (p.join q).isAbsolute = true := by
  have hp : ∀ r : String, Path.isAbsolute ⟨p.text ++ r⟩ = true := by
    intro r
    simp only [isAbsolute, beq_iff_eq] at h ⊢
    rw [String.toList_append, List.head?_append, h]
    rfl
  unfold join
  split
  · assumption
  · split
    · exact hp _
    · rw [String.append_assoc]
      exact hp _

end Path

end ScriptBuild
