import ScriptBuild.Arithmetic
import ScriptBuild.Resolution

/-!
# The setting of an evaluation

What no evaluation changes: the file system, the directories searched for modules, the templates of
the own loader and the arithmetic of the program. A template is a path in which each question mark
stands for a module, its dots read as slashes. `mem_templateCandidates` says which files a specifier
may stand for there.
-/

namespace ScriptBuild

/-- What no evaluation changes. -/
structure Setting where
  disk : FileSystem
  resolver : Resolver
  templates : List String
  /-- What becomes of the integers of headers. -/
  arithmetic : Arithmetic

namespace Setting

/-- The templates of a list written with semicolons; empty entries are no templates. -/
def templatesOfList (s : String) : List String :=
  Text.entries ';' s

/-- The templates used unless others are given. -/
def defaultTemplates : List String :=
  ["./?.t", "./?/init.t"]

/-- The path that a template makes of a specifier. -/
def expand (template specifier : String) : Path :=
  let module := specifier.toList.map fun c => if c = '.' then '/' else c
  ⟨String.ofList (Text.substitute '?' module template.toList)⟩

/-- The files that a specifier may stand for under the templates, in order. -/
def templateCandidates (s : Setting) (specifier : String) : List Path :=
  s.templates.map fun template => expand template specifier

/-- The first of these files that exists. -/
def searchPath (s : Setting) (specifier : String) : Option Path :=
  (s.templateCandidates specifier).find? s.disk.isFile

theorem mem_templateCandidates {s : Setting} {specifier : String} {p : Path} :
    p ∈ s.templateCandidates specifier ↔ ∃ t ∈ s.templates, expand t specifier = p :=
  List.mem_map

end Setting

end ScriptBuild
