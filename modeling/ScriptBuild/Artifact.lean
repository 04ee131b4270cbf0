import ScriptBuild.Machine
import ScriptBuild.Text.Blank

/-!
# Artefacts

The exported symbols are saved in a file whose extension chooses its kind. An object is written
directly. Libraries and executables need a program that links, and none can be started; their object
stands in a temporary file until that is known.
-/

namespace ScriptBuild

/-- What stands before the last dot of the file name, unless that dot begins the name. -/
def Path.stem? (p : Path) : Option String := do
  let name ← p.fileName?
  let parts := Text.pieces '.' name
  return if parts.length > 1 && parts.dropLast != [""] then ".".intercalate parts.dropLast else name

/-- The kind of an artefact. -/
inductive OutputFormat where
  | object
  | staticLibrary
  | sharedLibrary
  | executable
  deriving DecidableEq, Repr

/-- The kind that the extension of a path stands for. -/
def OutputFormat.ofPath (p : Path) : OutputFormat :=
  match p.extension? with
  | some "o" | some "obj" => object
  | some "a" | some "lib" => staticLibrary
  | some "so" | some "dylib" | some "dll" => sharedLibrary
  | _ => executable

/-- Why an artefact was not saved. -/
inductive ArtifactError where
  /-- The object was not made. -/
  | object (error : ObjectError)
  /-- The program that makes static libraries cannot be started. -/
  | archiver (cause : OsError)
  /-- The program that links cannot be started. -/
  | linker (program : String) (cause : OsError)
  /-- The file cannot be written. -/
  | write (path : Path) (cause : OsError)
  deriving DecidableEq, Repr

/-- The wording of a failure. -/
def ArtifactError.message : ArtifactError → String
  | object error => error.message
  | archiver cause => s!"link error: Failed to execute ar: {cause.message}"
  | linker program cause => s!"link error: Failed to execute linker {program}: {cause.message}"
  | write path cause => s!"failed to write '{path.text}': {cause.message}"

namespace Artifact

/-- The program that links: `CC` unless it is blank. -/
def linkerOf (env : Environment) : String :=
  match env.compiler.filter fun cc => ! cc.toList.all Text.isBlank with
  | some cc => cc
  | none => "cc"

/-- Why a program cannot be started: an argument has a NUL character, or there is no program. -/
def startFailure (arguments : List String) : OsError :=
  if arguments.any (·.toList.contains '\x00') then .nulArgument else .notFound

/-- What linking objects into an artefact of a kind comes to. An object needs no linking, and only
the program that links is given the flags. -/
def link (env : Environment) (format : OutputFormat) (objects : List Path) (output : Path)
    (linkFlags : List String) : Except ArtifactError Unit :=
  let files := output.text :: objects.map Path.text
  match format with
  | .object => .ok ()
  | .staticLibrary => .error (.archiver (startFailure files))
  | .sharedLibrary | .executable =>
    .error (.linker (linkerOf env) (startFailure (files ++ linkFlags)))

/-- The name that an object has inside. -/
def moduleName (output : Path) : String :=
  output.stem?.getD "scriptc"

/-- An object in a temporary file, and what is linked from it. The file is gone when this is done. -/
def linkThrough (m : Machine) (disk : FileSystem) (format : OutputFormat) (output : Path)
    (linkFlags : List String) (object : Content) : Except ArtifactError Unit × FileSystem :=
  match m.temporary.place disk with
  | .error cause => (.error (.write m.temporary.directory cause), disk)
  | .ok temp =>
    match disk.write temp (.text "") with
    | .error cause => (.error (.write m.temporary.directory cause), disk)
    | .ok made =>
      match made.write temp object with
      | .error cause => (.error (.write temp cause), made.remove temp)
      | .ok written =>
        (link m.toEnvironment format [temp] output linkFlags, written.remove temp)

/-- Saves the symbols, and tells whether that worked and the file system then. -/
def save (m : Machine) (disk : FileSystem) (output : Path) (exports : Exports)
    (linkFlags : List String) (optimize : Bool) : Except ArtifactError Unit × FileSystem :=
  match m.objects.emit (moduleName output) exports optimize with
  | .error e => (.error (.object e), disk)
  | .ok object =>
    match OutputFormat.ofPath output with
    | .object =>
      match disk.write output object with
      | .error cause => (.error (.write output cause), disk)
      | .ok written => (.ok (), written)
    | format => linkThrough m disk format output linkFlags object

end Artifact

end ScriptBuild
