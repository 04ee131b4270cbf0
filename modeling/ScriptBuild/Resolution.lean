import ScriptBuild.FileSystem.Basic
import ScriptBuild.Specifier

/-!
# Resolution of specifiers

A specifier names a module file or a package, which is a directory with an `init` file. A relative
one is looked up next to the file that asks, any other in the search directories in their order. The
first candidate that is a regular file is the module, and the candidates tried on the way are
reported. Main statements: `firstFile_eq_none_iff` says when no candidate is a file, and
`firstFile_tried` that the candidates tried are a start of the list.
-/

namespace ScriptBuild

/-- What a candidate would be. -/
inductive CandidateKind where
  /-- The module file itself. -/
  | file
  /-- The `init` file of a directory. -/
  | package
  deriving DecidableEq, Repr

/-- Where a candidate was looked for. -/
inductive CandidateBase where
  /-- Next to the file that asks. -/
  | origin (file : Path)
  /-- In a search directory. -/
  | search (directory : Path)
  deriving DecidableEq, Repr

/-- A file that a specifier may stand for. -/
structure Candidate where
  path : Path
  kind : CandidateKind
  base : CandidateBase
  deriving DecidableEq, Repr

/-- The description of a candidate in a report. -/
def Candidate.describe (c : Candidate) : String :=
  let kind := match c.kind with
    | .file => "module file"
    | .package => "package init"
  match c.base with
  | .origin file => s!"{c.path.text} ({kind} relative to {file.text})"
  | .search directory => s!"{c.path.text} ({kind} in search path {directory.text})"

/-- Why a specifier leads to no file. The first two are decided on the specifier alone. -/
inductive ResolutionError where
  /-- The specifier is no plain dotted name. -/
  | malformed (specifier : String)
  /-- The specifier is relative and no file asks for it. -/
  | missingOrigin (specifier : String)
  /-- None of the candidates is a file. -/
  | exhausted (specifier : String) (origin : Option Path) (tried : List Candidate)
  deriving DecidableEq, Repr

namespace ResolutionError

/-- The wording of a failed resolution. -/
def message : ResolutionError → String
  | malformed spec => s!"specifier '{spec}' is not a plain dotted module name"
  | missingOrigin spec => s!"relative specifier '{spec}' has no originating file"
  | exhausted spec _ tried => s!"no file found for '{spec}' ({tried.length} paths tried)"

/-- The candidates that were looked at. -/
def tried : ResolutionError → List Candidate
  | exhausted _ _ tried => tried
  | _ => []

end ResolutionError

/-- A module file that was found: its canonical path, and the candidates reported for it. -/
structure Resolved where
  path : Path
  tried : List Candidate
  deriving DecidableEq, Repr

/-- Where and under which file extension modules are looked up. -/
structure Resolver where
  searchDirectories : List Path
  extension : String := "t"
  deriving DecidableEq, Repr

namespace Resolver

/-- The name of the file that stands for its directory, without the extension. -/
def packageFile : Path := ⟨"init"⟩

/-- The resolver with another extension, given with or without its dot. -/
def withExtension (r : Resolver) (extension : String) : Resolver :=
  { r with extension := String.ofList (extension.toList.dropWhile (· == '.')) }

/-- The two files that may hold the module at `target`, the module file first. -/
def candidatesAt (r : Resolver) (target : Path) (base : CandidateBase) : List Candidate :=
  [⟨target.withExtension r.extension, .file, base⟩,
   ⟨(target.join packageFile).withExtension r.extension, .package, base⟩]

/-- The place that a climbing name means next to a file. -/
def relativeTarget (name : ModuleName) (origin : Path) : Path :=
  (((origin.parent?).getD ⟨"/"⟩).join name.toPath).normalize

/-- The candidates of a climbing name next to a file. -/
def relativeCandidates (r : Resolver) (name : ModuleName) (origin : Path) : List Candidate :=
  r.candidatesAt (relativeTarget name origin) (.origin origin)

/-- The candidates of a name in the search directories. -/
def searchCandidates (r : Resolver) (name : ModuleName) : List Candidate :=
  r.searchDirectories.flatMap fun dir => r.candidatesAt (dir.join name.toPath) (.search dir)

/-- The first candidate that is a regular file, by its canonical path, and the candidates looked at
until then. -/
def firstFile (fs : FileSystem) : List Candidate → Option Path × List Candidate
  | [] => (none, [])
  | c :: cs =>
    match fs.probe c.path with
    | some path => (some path, [c])
    | none =>
      let rest := firstFile fs cs
      (rest.1, c :: rest.2)

/-- The module file that a specifier stands for when a file asks for it. Next to the asking file
both candidates are reported whichever was found; in the search directories those looked at. -/
def resolve (r : Resolver) (fs : FileSystem) (spec : String) (origin : Option Path) :
    Except ResolutionError Resolved :=
  let name := Specifier.parse spec
  if ! Specifier.isPlain spec || name.isEmpty then .error (.malformed spec)
  else if name.isRelative then
    match origin with
    | none => .error (.missingOrigin spec)
    | some file =>
      let candidates := r.relativeCandidates name file
      match (firstFile fs candidates).1 with
      | some path => .ok ⟨path, candidates⟩
      | none => .error (.exhausted spec (some file) candidates)
  else
    match firstFile fs (r.searchCandidates name) with
    | (some path, tried) => .ok ⟨path, tried⟩
    | (none, tried) => .error (.exhausted spec origin tried)

/-- No candidate is found exactly if none leads to a regular file. -/
theorem firstFile_eq_none_iff {fs : FileSystem} {cs : List Candidate} :
    (firstFile fs cs).1 = none ↔ ∀ c ∈ cs, fs.probe c.path = none := by
  induction cs with
  | nil => simp [firstFile]
  | cons c cs ih =>
    cases h : fs.probe c.path <;> simp [firstFile, h, ih]

theorem exists_probe_of_firstFile {fs : FileSystem} {cs : List Candidate} {p : Path}
    (h : (firstFile fs cs).1 = some p) : ∃ c ∈ cs, fs.probe c.path = some p := by
  induction cs with
  | nil => cases h
  | cons c cs ih =>
    cases hprobe : fs.probe c.path with
    | none =>
      simp only [firstFile, hprobe] at h
      obtain ⟨d, hd, hfound⟩ := ih h
      exact ⟨d, List.mem_cons_of_mem _ hd, hfound⟩
    | some q =>
      simp only [firstFile, hprobe, Option.some.injEq] at h
      exact ⟨c, List.mem_cons_self, h ▸ hprobe⟩

/-- The candidates looked at are a start of the list. -/
theorem firstFile_tried (fs : FileSystem) (cs : List Candidate) : (firstFile fs cs).2 <+: cs := by
  induction cs with
  | nil => exact List.nil_prefix
  | cons c cs ih =>
    cases h : fs.probe c.path with
    | none => simpa [firstFile, h] using ih
    | some path => simp [firstFile, h]

/-- The file that a specifier stands for is a regular file, given by its canonical path. -/
theorem exists_probe_of_resolve {r : Resolver} {fs : FileSystem} {spec : String}
    {origin : Option Path} {found : Resolved} (h : r.resolve fs spec origin = .ok found) :
    ∃ p, fs.probe p = some found.path := by
  unfold resolve at h
  dsimp only at h
  split at h
  · cases h
  · split at h
    · split at h
      · cases h
      · split at h
        · next path hfirst =>
          cases h
          obtain ⟨c, _, hprobe⟩ := exists_probe_of_firstFile hfirst
          exact ⟨c.path, hprobe⟩
        · cases h
    · split at h
      · next path tried hfirst =>
        cases h
        obtain ⟨c, _, hprobe⟩ := exists_probe_of_firstFile (congrArg Prod.fst hfirst)
        exact ⟨c.path, hprobe⟩
      · cases h

end Resolver

end ScriptBuild
