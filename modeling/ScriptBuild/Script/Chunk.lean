import ScriptBuild.Digest
import ScriptBuild.Path.Basic
import ScriptBuild.Script.Parser

/-!
# Chunks

A chunk is a script that was read: its statements, its source and the file that it came from. The
file is the origin of every request that the chunk makes; a chunk without a file has no origin.
-/

namespace ScriptBuild.Script

/-- A script that was read. -/
structure Chunk where
  origin : Option Path
  source : String
  statements : List Statement
  deriving Repr

namespace Chunk

/-- The chunk that a text is. -/
def ofText (source : String) (origin : Option Path) : Except SyntaxError Chunk := do
  let tokens ← Tokens.ofText source
  let statements ← parseStatements tokens.finish false tokens.list
  return ⟨origin, source, statements⟩

/-- The same text is the same chunk in another file. -/
theorem ofText_of_ofText {source : String} {origin : Option Path} {c : Chunk}
    (h : ofText source origin = .ok c) (other : Option Path) :
    c.origin = origin ∧ ofText source other = .ok { c with origin := other } := by
  unfold ofText at h ⊢
  rcases htokens : Tokens.ofText source with e | tokens
  · rw [htokens] at h
    cases h
  · rw [htokens] at h
    simp only [bind, Except.bind] at h ⊢
    rcases hstatements : parseStatements tokens.finish false tokens.list with e | statements
    · rw [hstatements] at h
      cases h
    · rw [hstatements] at h
      cases h
      exact ⟨rfl, rfl⟩

/-- The file that stands for a chunk in a message. -/
def file (c : Chunk) : Path :=
  c.origin.getD ⟨"<string>"⟩

/-- The digest of the source, in hexadecimal. -/
def digest (c : Chunk) : String :=
  Digest.hex (Digest.sha256 c.source.toUTF8.toList)

/-- The specifiers that a chunk asks for. -/
def requests (c : Chunk) : List String :=
  c.statements.flatMap (·.requests)

end Chunk

end ScriptBuild.Script
