import ScriptBuild.Header.Directive
import ScriptBuild.Header.Search

/-!
# Scanning headers

The constants of a header and of all it includes. The directives still to be read are kept in a list
in which an inclusion is replaced by the directives of the header that it names, the first time that
header is reached; later inclusions of it, and those of headers that cannot be found, are dropped.
Scanning ends because an inclusion uses up one of the regular files not yet read, and any other step
uses up a directive. In checked arithmetic a definition may overflow, which no header error tells of:
the whole program stops there.
-/

namespace ScriptBuild

namespace FileSystem

/-- The locations of the regular files. -/
def regularFiles (fs : FileSystem) : List Location :=
  (fs.entries.map (·.1)).filter fun loc => (fs.content? loc).isSome

end FileSystem

/-- The constants found and the header files read for them, in the order in which they were
opened. -/
structure HeaderScan where
  constants : Fields Constant
  files : List Path
  deriving DecidableEq, Repr

/-- Why a scan came to nothing. -/
inductive ScanStop where
  /-- A header failed. -/
  | failed (error : HeaderError)
  /-- The program stopped at a definition. -/
  | overflow
  deriving DecidableEq, Repr

/-- The scan after a definition by a body that spells the literal, if it spells one. A constant sets
the name, and so does the name of a constant known by then. Any other body leaves the name as it
was. -/
def HeaderScan.defineAs (scan : HeaderScan) (name : String) (body : List Char)
    (literal : Option Constant) : HeaderScan :=
  match literal.or (Fields.get? scan.constants (String.ofList body)) with
  | some c => { scan with constants := Fields.insert name c scan.constants }
  | none => scan

/-- The scan after a definition. -/
def HeaderScan.define (a : Arithmetic) (scan : HeaderScan) (name : String) (body : List Char) :
    Except Overflow HeaderScan :=
  (Header.constant? a body).map (scan.defineAs name body)

/-- The constants of a scan as a table with the given instance number. -/
def HeaderScan.toValue (scan : HeaderScan) (number : Nat) : Value :=
  .table number (scan.constants.map fun x => (x.1, x.2.toValue))

namespace Header

/-- A directive and the directory of the header that it stands in. -/
structure Pending where
  base : Option Path
  directive : Directive
  deriving DecidableEq, Repr

/-- The directives of a text in a directory. -/
def pendingOfText (base : Option Path) (source : String) : List Pending :=
  (Directive.ofText source).map fun d => ⟨base, d⟩

/-- The header that an inclusion names. One in quotes is looked for next to the including header
first. -/
def target? (fs : FileSystem) (directories : List Path) (base : Option Path) (name : String)
    (quoted : Bool) : Option Path :=
  let beside := if quoted then base.map (·.join ⟨name⟩) else none
  (beside.filter fs.isFile).or (find fs name directories none).toOption

/-- Scans the directives in a list. `unread` holds the regular files not yet read. -/
def scanPending (a : Arithmetic) (fs : FileSystem) (directories : List Path)
    (unread : List Location) (scan : HeaderScan) : List Pending → Except ScanStop HeaderScan
  | [] => .ok scan
  | ⟨_, .define name body⟩ :: more =>
    match scan.define a name body with
    | .error _ => .error .overflow
    | .ok defined => scanPending a fs directories unread defined more
  | ⟨base, .include name quoted⟩ :: more =>
    match target? fs directories base name quoted with
    | none => scanPending a fs directories unread scan more
    | some path =>
      match fs.locate .reach path with
      | .error cause => .error (.failed (.unreadable path cause))
      | .ok loc =>
        if h : loc ∈ unread then
          have := List.length_erase_of_mem h
          have := List.length_pos_of_mem h
          match fs.readText loc.toPath with
          | .error cause => .error (.failed (.unreadable loc.toPath cause))
          | .ok source =>
            scanPending a fs directories (unread.erase loc)
              { scan with files := scan.files ++ [loc.toPath] }
              (pendingOfText loc.toPath.parent? source ++ more)
        else scanPending a fs directories unread scan more
termination_by pending => (unread.length, pending.length)

/-- The constants of a header text. Inclusions in quotes are looked for in the directory `base`
first. -/
def scanText (a : Arithmetic) (fs : FileSystem) (directories : List Path) (source : String)
    (base : Option Path) : Except ScanStop HeaderScan :=
  scanPending a fs directories fs.regularFiles ⟨[], []⟩ (pendingOfText base source)

/-- The constants of the header file at a path. -/
def scanFile (a : Arithmetic) (fs : FileSystem) (directories : List Path) (path : Path) :
    Except ScanStop HeaderScan :=
  match fs.locate .reach path with
  | .error cause => .error (.failed (.unreadable path cause))
  | .ok loc =>
    match fs.readText loc.toPath with
    | .error cause => .error (.failed (.unreadable loc.toPath cause))
    | .ok source =>
      scanPending a fs directories (fs.regularFiles.erase loc) ⟨[], [loc.toPath]⟩
        (pendingOfText loc.toPath.parent? source)

end Header

end ScriptBuild
