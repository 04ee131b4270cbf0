import ScriptBuild.Path.Basic

/-!
# Specifiers

A script asks for a module by a specifier: names with dots between them, and in front of them one
dot for each level to climb from the directory of the asking file. A specifier without leading dots
is looked up in the search directories. `isRelative_iff` says when a specifier climbs.
-/

namespace ScriptBuild

/-- What a specifier says: the levels to climb and the names to enter from there. -/
structure ModuleName where
  climbs : Nat
  segments : List String
  deriving DecidableEq, Repr

namespace Specifier

/-- The character may stand in a specifier that is looked up in directories. -/
def isPlainChar (c : Char) : Bool :=
  c.isAlphanum || c == '.' || c == '_' || c == '-'

/-- The specifier is not empty and holds plain characters only. -/
def isPlain (spec : String) : Bool :=
  spec ≠ "" && spec.toList.all isPlainChar

/-- The specifier is relative to the file that it stands in. -/
def isRelative (spec : String) : Bool :=
  spec.toList.head? == some '.'

/-- The reading of a specifier. One that leaves a name empty (`a..b`, a dot at the end, nothing but
dots) has no segments at all. -/
def parse (spec : String) : ModuleName :=
  let dots := spec.toList.takeWhile (· == '.')
  let segments := Text.pieces '.' (String.ofList (spec.toList.dropWhile (· == '.')))
  ⟨dots.length, if segments.contains "" then [] else segments⟩

end Specifier

namespace ModuleName

/-- The name climbs, so it means something only next to a file. -/
def isRelative (m : ModuleName) : Bool :=
  m.climbs > 0

/-- The name names nothing. -/
def isEmpty (m : ModuleName) : Bool :=
  m.segments.isEmpty

/-- The path that the name stands for: `..` for each climb, then the segments. -/
def toPath (m : ModuleName) : Path :=
  (List.replicate m.climbs ".." ++ m.segments).foldl (fun p s => p.join ⟨s⟩) ⟨""⟩

end ModuleName

/-- A specifier is relative exactly if its reading climbs. -/
theorem Specifier.isRelative_iff (spec : String) :
    (parse spec).isRelative = isRelative spec := by
  unfold parse isRelative ModuleName.isRelative
  cases spec.toList with
  | nil => rfl
  | cons c cs => by_cases h : c = '.' <;> simp [h]

end ScriptBuild
