import ScriptBuild.Specifier

/-!
# Requests

A script asks for a module by a specifier. A relative specifier means something only next to the
file that asks, so that file is part of the key under which the module is kept. `key_of_qualified`
says that it is not part of the key of any other specifier.
-/

namespace ScriptBuild

/-- A request for a module, and the file of the chunk that makes it. -/
structure Request where
  specifier : String
  origin : Option Path
  deriving DecidableEq, Repr

namespace Request

/-- The key under which the module asked for is kept. The file is a text here: files that are none
would be told apart only as far as they are shown differently. -/
def key (r : Request) : String :=
  match r.origin with
  | some file =>
    if Specifier.isRelative r.specifier then r.specifier ++ "@" ++ file.text else r.specifier
  | none => r.specifier

theorem key_of_qualified {r : Request} (h : Specifier.isRelative r.specifier = false) :
    r.key = r.specifier := by
  unfold key
  split <;> simp [h]

end Request

end ScriptBuild
