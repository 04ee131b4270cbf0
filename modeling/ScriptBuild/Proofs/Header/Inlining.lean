import Mathlib
import ScriptBuild.FileSystem.Build
import ScriptBuild.Proofs.Header.Constants
import ScriptBuild.Proofs.Header.Files
import ScriptBuild.Proofs.Occurrences

/-!
# Inlining headers

To follow the inclusions of a text is to put each header in the place of the first inclusion that
leads to it, and nothing in the place of any other. `Inlines` says so of texts within texts, without
the lists that the scan keeps of directives still to be read and of files still to be visited. Main
statements: `exists_inlines` says that following inclusions ends, `scanFrom_of_inlines` that a scan
of lines comes to what their inclusions come to, and `scan_follows_inclusions` says both of whole
scans.
-/

namespace ScriptBuild.Header

open Text

variable {a : Arithmetic} {fs : FileSystem} {directories : List Path}

/-- The paths at which an included header is looked for. An absolute name is a path as it stands.
Any other is looked for in the directories, and next to the including header first if it is in
quotes. -/
def places (directories : List Path) (base : Option Path) (name : String) (quoted : Bool) :
    List Path :=
  if Path.isAbsolute ⟨name⟩ then [⟨name⟩]
  else ((if quoted then base.toList else []) ++ directories).map (·.join ⟨name⟩)

theorem target?_eq_find? (base : Option Path) (name : String) (quoted : Bool) :
    target? fs directories base name quoted =
      (places directories base name quoted).find? fs.isFile := by
  have hfind : (find fs name directories none).toOption =
      (searchPaths ⟨name⟩ directories none).find? fs.isFile := by
    simp only [find]
    cases (searchPaths ⟨name⟩ directories none).find? fs.isFile <;> rfl
  unfold target?
  dsimp only
  rw [hfind, searchPaths, places]
  by_cases habsolute : Path.isAbsolute ⟨name⟩ = true
  · rw [if_pos habsolute, if_pos habsolute]
    cases quoted with
    | false => rfl
    | true =>
      cases base with
      | none => rfl
      | some beside =>
        cases hfile : fs.isFile ⟨name⟩ <;>
          simp [Path.join_of_isAbsolute habsolute, Option.filter, hfile]
  · rw [if_neg habsolute, if_neg habsolute, List.map_append, List.find?_append]
    cases quoted with
    | false => simp
    | true =>
      cases base with
      | none => simp
      | some beside =>
        cases hfile : fs.isFile (beside.join ⟨name⟩) <;> simp [Option.filter, hfile]

/-- What the inclusions of a text come to. -/
structure Inlining where
  /-- The canonical paths that inclusions lead to, in order and with repetitions. -/
  visits : List Path
  /-- The lines that are left. -/
  text : List (List Char)

/-- The definition on a line. -/
def definition? (line : List Char) : Option Definition :=
  match Directive.ofLine? line with
  | some (.define name body) => some (name, body)
  | _ => none

/-- The definitions in the lines that are left. -/
def Inlining.definitions (r : Inlining) : List Definition :=
  r.text.filterMap definition?

/-- The line includes no header. -/
def Plain (line : List Char) : Prop :=
  ∀ name quoted, Directive.ofLine? line ≠ some (.include name quoted)

/-- The line defines a name by a body whose integer overflows. -/
def Overflows (a : Arithmetic) (line : List Char) : Prop :=
  ∃ name body, definition? line = some (name, body) ∧ ∃ o, constant? a body = .error o

theorem plain_of_definition? {line : List Char} {d : Definition}
    (h : definition? line = some d) : Plain line := by
  intro name quoted hline
  rw [definition?, hline] at h
  cases h

theorem not_overflows {line body : List Char} {name : String} {literal : Option Constant}
    (hdefinition : definition? line = some (name, body))
    (hconstant : constant? a body = .ok literal) : ¬ Overflows a line := by
  rintro ⟨_, _, hdefinition', o, ho⟩
  cases hdefinition.symm.trans hdefinition'
  cases hconstant.symm.trans ho

/-- The line includes a header that is at none of the places. -/
def Unresolved (fs : FileSystem) (directories : List Path) (base : Option Path)
    (line : List Char) : Prop :=
  ∃ name quoted, Directive.ofLine? line = some (.include name quoted) ∧
    (places directories base name quoted).find? fs.isFile = none

/-- The line includes the header with that canonical path, found at the first of the places that is
a file. -/
def Includes (fs : FileSystem) (directories : List Path) (base : Option Path) (line : List Char)
    (file : Path) : Prop :=
  ∃ name quoted path, Directive.ofLine? line = some (.include name quoted) ∧
    (places directories base name quoted).find? fs.isFile = some path ∧
    fs.canonicalize path = .ok file

/-- The inclusions of lines in a directory are followed, with this outcome, after those files were
visited. A header that was visited leaves nothing; any other leaves its own lines, their inclusions
followed in its directory, and what it visits counts as visited from there on. A header that cannot
be read and a line that overflows end all. -/
inductive Inlines (a : Arithmetic) (fs : FileSystem) (directories : List Path) :
    List Path → Option Path → List (List Char) → Except ScanStop Inlining → Prop where
  | done (seen : List Path) (base : Option Path) :
      Inlines a fs directories seen base [] (.ok ⟨[], []⟩)
  | kept {seen : List Path} {base : Option Path} {line : List Char} {more : List (List Char)}
      {outcome : Except ScanStop Inlining} (plain : Plain line) (fits : ¬ Overflows a line)
      (rest : Inlines a fs directories seen base more outcome) :
      Inlines a fs directories seen base (line :: more)
        (outcome.map fun r => ⟨r.visits, line :: r.text⟩)
  | overflowed {seen : List Path} {base : Option Path} {line : List Char} (more : List (List Char))
      (overflows : Overflows a line) :
      Inlines a fs directories seen base (line :: more) (.error .overflow)
  | dropped {seen : List Path} {base : Option Path} {line : List Char} {more : List (List Char)}
      {outcome : Except ScanStop Inlining} (unresolved : Unresolved fs directories base line)
      (rest : Inlines a fs directories seen base more outcome) :
      Inlines a fs directories seen base (line :: more) outcome
  | again {seen : List Path} {base : Option Path} {line : List Char} {more : List (List Char)}
      {outcome : Except ScanStop Inlining} {file : Path}
      (included : Includes fs directories base line file) (old : file ∈ seen)
      (rest : Inlines a fs directories (seen ++ [file]) base more outcome) :
      Inlines a fs directories seen base (line :: more)
        (outcome.map fun r => ⟨file :: r.visits, r.text⟩)
  | unreadable {seen : List Path} {base : Option Path} {line : List Char}
      {more : List (List Char)} {file : Path} {cause : OsError}
      (included : Includes fs directories base line file) (new : file ∉ seen)
      (refused : fs.readText file = .error cause) :
      Inlines a fs directories seen base (line :: more) (.error (.failed (.unreadable file cause)))
  | failed {seen : List Path} {base : Option Path} {line : List Char} {more : List (List Char)}
      {file : Path} {source : String} {e : ScanStop}
      (included : Includes fs directories base line file) (new : file ∉ seen)
      (read : fs.readText file = .ok source)
      (inner : Inlines a fs directories (seen ++ [file]) file.parent? (lines source.toList)
        (.error e)) :
      Inlines a fs directories seen base (line :: more) (.error e)
  | first {seen : List Path} {base : Option Path} {line : List Char} {more : List (List Char)}
      {file : Path} {source : String} {r : Inlining} {outcome : Except ScanStop Inlining}
      (included : Includes fs directories base line file) (new : file ∉ seen)
      (read : fs.readText file = .ok source)
      (inner : Inlines a fs directories (seen ++ [file]) file.parent? (lines source.toList) (.ok r))
      (rest : Inlines a fs directories (seen ++ file :: r.visits) base more outcome) :
      Inlines a fs directories seen base (line :: more)
        (outcome.map fun s => ⟨file :: r.visits ++ s.visits, r.text ++ s.text⟩)

/-- A line is plain, or it includes a header that is at none of the places, or one that is found. -/
theorem line_cases (fs : FileSystem) (directories : List Path) (base : Option Path)
    (line : List Char) :
    Plain line ∨ Unresolved fs directories base line ∨
      ∃ file, Includes fs directories base line file := by
  by_cases hplain : Plain line
  · exact .inl hplain
  right
  simp only [Plain, not_forall, not_not] at hplain
  obtain ⟨name, quoted, hline⟩ := hplain
  cases hfound : (places directories base name quoted).find? fs.isFile with
  | none => exact .inl ⟨name, quoted, hline, hfound⟩
  | some path =>
    right
    have hfile := List.find?_some hfound
    unfold FileSystem.isFile at hfile
    split at hfile
    · next loc hloc =>
      exact ⟨loc.toPath, name, quoted, path, hline, hfound,
        FileSystem.canonicalize_eq_ok.2 ⟨loc, hloc, rfl⟩⟩
    · cases hfile

section Unvisited

variable {seen : List Path} {loc : Location}

/-- The locations of the regular files that were not visited. -/
def unvisited (fs : FileSystem) (seen : List Path) : List Location :=
  fs.regularFiles.filter fun loc => loc.toPath ∉ seen

theorem unvisited_nil (fs : FileSystem) : unvisited fs [] = fs.regularFiles :=
  List.filter_eq_self.2 fun _ _ => by simp

theorem mem_unvisited : loc ∈ unvisited fs seen ↔ loc ∈ fs.regularFiles ∧ loc.toPath ∉ seen := by
  simp [unvisited]

theorem unvisited_concat_of_mem {file : Path} (h : file ∈ seen) :
    unvisited fs (seen ++ [file]) = unvisited fs seen := by
  apply List.filter_congr
  intro other _
  have hsame : other.toPath ∈ seen ++ [file] ↔ other.toPath ∈ seen := by
    rw [List.mem_append, List.mem_singleton]
    constructor
    · rintro (hother | heq)
      · exact hother
      · rwa [heq]
    · exact Or.inl
  simp only [hsame]

/-- The regular files have different canonical paths, so that a visit uses up one of them. -/
theorem erase_unvisited (hloc : loc ∈ fs.regularFiles) :
    (unvisited fs seen).erase loc = unvisited fs (seen ++ [loc.toPath]) := by
  have hnodup : (unvisited fs seen).Nodup := fs.nodup_regularFiles.filter _
  rw [hnodup.erase_eq_filter, unvisited, unvisited, List.filter_filter]
  apply List.filter_congr
  intro other hother
  have hpath : other.toPath = loc.toPath ↔ other = loc := by
    constructor
    · exact Location.toPath_inj (FileSystem.isName_of_mem_regularFiles hother)
        (FileSystem.isName_of_mem_regularFiles hloc)
    · exact congrArg _
  by_cases heq : other = loc <;> simp [hpath, heq]

theorem length_unvisited_lt (hloc : loc ∈ fs.regularFiles) (hnew : loc.toPath ∉ seen)
    (later : List Path) :
    (unvisited fs (seen ++ loc.toPath :: later)).length < (unvisited fs seen).length := by
  have hmem : loc ∈ unvisited fs seen := mem_unvisited.2 ⟨hloc, hnew⟩
  have hsub : (unvisited fs (seen ++ loc.toPath :: later)).Sublist
      (unvisited fs (seen ++ [loc.toPath])) := by
    apply List.monotone_filter_right
    intro other hother
    simp_all
  have hle := hsub.length_le
  rw [← erase_unvisited hloc, List.length_erase_of_mem hmem] at hle
  have hpos := List.length_pos_of_mem hmem
  omega

end Unvisited

section Step

variable {seen : List Path} {base : Option Path} {line : List Char} {file : Path}

theorem Includes.exists_location (h : Includes fs directories base line file) :
    ∃ name quoted path loc, Directive.ofLine? line = some (.include name quoted) ∧
      target? fs directories base name quoted = some path ∧ fs.locate .reach path = .ok loc ∧
      loc ∈ fs.regularFiles ∧ loc.toPath = file := by
  obtain ⟨name, quoted, path, hline, hfound, hcanonical⟩ := h
  obtain ⟨loc, hloc, hpath⟩ := FileSystem.canonicalize_eq_ok.1 hcanonical
  have hfile := List.find?_some hfound
  rw [FileSystem.isFile, hloc] at hfile
  exact ⟨name, quoted, path, loc, hline, (target?_eq_find? base name quoted).trans hfound, hloc,
    FileSystem.mem_regularFiles.2 hfile, hpath⟩

/-- A header that is read for the first time uses up a regular file. -/
theorem Includes.length_unvisited_lt (h : Includes fs directories base line file)
    (hnew : file ∉ seen) (later : List Path) :
    (unvisited fs (seen ++ file :: later)).length < (unvisited fs seen).length := by
  obtain ⟨_, _, _, loc, _, _, _, hloc, rfl⟩ := h.exists_location
  exact Header.length_unvisited_lt hloc hnew later

/-- Following the inclusions of lines ends: headers are read for the first time as often as there
are regular files left, and in between the lines get fewer. -/
theorem exists_inlines_of_lt (a : Arithmetic) (fs : FileSystem) (directories : List Path) (n : Nat)
    (seen : List Path) (base : Option Path) (ls : List (List Char))
    (hn : (unvisited fs seen).length < n) :
    ∃ outcome, Inlines a fs directories seen base ls outcome := by
  induction n generalizing seen base ls with
  | zero => omega
  | succ n ih =>
    induction ls generalizing seen with
    | nil => exact ⟨_, .done seen base⟩
    | cons line more rest =>
      obtain hplain | hunresolved | ⟨file, hincluded⟩ := line_cases fs directories base line
      · obtain ⟨outcome, hrest⟩ := rest seen hn
        by_cases hoverflows : Overflows a line
        · exact ⟨_, .overflowed more hoverflows⟩
        · exact ⟨_, .kept hplain hoverflows hrest⟩
      · obtain ⟨outcome, hrest⟩ := rest seen hn
        exact ⟨_, .dropped hunresolved hrest⟩
      by_cases hseen : file ∈ seen
      · rw [← unvisited_concat_of_mem hseen] at hn
        obtain ⟨outcome, hrest⟩ := rest _ hn
        exact ⟨_, .again hincluded hseen hrest⟩
      cases hread : fs.readText file with
      | error cause => exact ⟨_, .unreadable hincluded hseen hread⟩
      | ok source =>
        have hfewer := hincluded.length_unvisited_lt hseen []
        obtain ⟨outcome, hinner⟩ :=
          ih (seen ++ [file]) file.parent? (lines source.toList) (by omega)
        cases outcome with
        | error e => exact ⟨_, .failed hincluded hseen hread hinner⟩
        | ok r =>
          have hleft := hincluded.length_unvisited_lt hseen r.visits
          obtain ⟨outcome, hrest⟩ := rest (seen ++ file :: r.visits) (by omega)
          exact ⟨_, .first hincluded hseen hread hinner hrest⟩

theorem exists_inlines (a : Arithmetic) (fs : FileSystem) (directories seen : List Path)
    (base : Option Path) (ls : List (List Char)) :
    ∃ outcome, Inlines a fs directories seen base ls outcome :=
  exists_inlines_of_lt a fs directories _ seen base ls (Nat.lt_succ_self _)

/-- The directives of lines in a directory. -/
def pendingOfLines (base : Option Path) (ls : List (List Char)) : List Pending :=
  (ls.filterMap Directive.ofLine?).map fun d => ⟨base, d⟩

/-- The scan of what is still to be read, after those files were visited. -/
def scanFrom (a : Arithmetic) (fs : FileSystem) (directories : List Path) (seen : List Path)
    (constants : Fields Constant) (pending : List Pending) : Except ScanStop HeaderScan :=
  scanPending a fs directories (unvisited fs seen) ⟨constants, seen.eraseDups⟩ pending

variable {constants : Fields Constant} {ls : List (List Char)} {more : List Pending}

theorem scanFrom_definition {name : String} {body : List Char}
    (h : definition? line = some (name, body)) :
    scanFrom a fs directories seen constants (pendingOfLines base (line :: ls) ++ more) =
      match constant? a body with
      | .error _ => .error .overflow
      | .ok _ => scanFrom a fs directories seen (withDefinition constants (name, body))
        (pendingOfLines base ls ++ more) := by
  unfold definition? at h
  split at h
  · next hline =>
    cases h
    unfold scanFrom pendingOfLines
    rw [List.filterMap_cons_some hline, List.map_cons, List.cons_append, scanPending,
      HeaderScan.define]
    cases hconstant : constant? a body with
    | error o => rfl
    | ok literal =>
      rw [← literal?_of_constant? hconstant]
      dsimp only [Except.map]
      rw [defineAs_eq]
  · cases h

/-- A line that includes nothing and does not overflow sets what it defines, if it does. -/
theorem scanFrom_plain (h : Plain line) (fits : ¬ Overflows a line) :
    scanFrom a fs directories seen constants (pendingOfLines base (line :: ls) ++ more) =
      scanFrom a fs directories seen ((definition? line).toList.foldl withDefinition constants)
        (pendingOfLines base ls ++ more) := by
  cases hdefinition : definition? line with
  | some d =>
    obtain ⟨name, body⟩ := d
    rw [scanFrom_definition hdefinition]
    cases hconstant : constant? a body with
    | error o => exact absurd ⟨name, body, hdefinition, o, hconstant⟩ fits
    | ok literal => rfl
  | none =>
    unfold scanFrom pendingOfLines
    unfold definition? at hdefinition
    cases hline : Directive.ofLine? line with
    | none => rw [List.filterMap_cons_none hline]; rfl
    | some directive =>
      rw [hline] at hdefinition
      cases directive with
      | «include» name quoted => exact absurd hline (h name quoted)
      | define name body => cases hdefinition

theorem scanFrom_overflows (h : Overflows a line) :
    scanFrom a fs directories seen constants (pendingOfLines base (line :: ls) ++ more) =
      .error .overflow := by
  obtain ⟨name, body, hdefinition, o, hconstant⟩ := h
  rw [scanFrom_definition hdefinition, hconstant]

theorem scanFrom_unresolved (h : Unresolved fs directories base line) :
    scanFrom a fs directories seen constants (pendingOfLines base (line :: ls) ++ more) =
      scanFrom a fs directories seen constants (pendingOfLines base ls ++ more) := by
  obtain ⟨name, quoted, hline, hnone⟩ := h
  rw [← target?_eq_find?] at hnone
  unfold scanFrom pendingOfLines
  rw [List.filterMap_cons_some hline, List.map_cons, List.cons_append, scanPending, hnone]

/-- A header that was visited is passed over, and any other is read and scanned before the rest. -/
theorem scanFrom_include (h : Includes fs directories base line file) :
    scanFrom a fs directories seen constants (pendingOfLines base (line :: ls) ++ more) =
      if file ∈ seen then
        scanFrom a fs directories (seen ++ [file]) constants (pendingOfLines base ls ++ more)
      else match fs.readText file with
        | .error cause => .error (.failed (.unreadable file cause))
        | .ok source =>
          scanFrom a fs directories (seen ++ [file]) constants
            (pendingOfLines file.parent? (lines source.toList) ++
              (pendingOfLines base ls ++ more)) := by
  obtain ⟨name, quoted, path, loc, hline, htarget, hloc, hregular, rfl⟩ := h.exists_location
  have hpending : pendingOfLines base (line :: ls) =
      ⟨base, .include name quoted⟩ :: pendingOfLines base ls := by
    unfold pendingOfLines
    rw [List.filterMap_cons_some hline, List.map_cons]
  unfold scanFrom
  rw [hpending, List.cons_append, scanPending, htarget]
  dsimp only
  rw [hloc]
  dsimp only
  by_cases hseen : loc.toPath ∈ seen
  · rw [dif_neg fun hin => (mem_unvisited.1 hin).2 hseen, if_pos hseen,
      unvisited_concat_of_mem hseen, eraseDups_concat_of_mem hseen]
  · rw [dif_pos (mem_unvisited.2 ⟨hregular, hseen⟩), if_neg hseen, erase_unvisited hregular,
      eraseDups_concat_of_not_mem hseen]
    rfl

end Step

/-- The scan of lines comes to what following their inclusions comes to, and goes on behind it. -/
theorem scanFrom_of_inlines {seen : List Path} {base : Option Path} {ls : List (List Char)}
    {outcome : Except ScanStop Inlining} (h : Inlines a fs directories seen base ls outcome)
    (constants : Fields Constant) (more : List Pending) :
    scanFrom a fs directories seen constants (pendingOfLines base ls ++ more) =
      outcome.bind fun r => scanFrom a fs directories (seen ++ r.visits)
        (r.definitions.foldl withDefinition constants) more := by
  induction h generalizing constants more with
  | done seen base => simp [pendingOfLines, Except.bind, Inlining.definitions]
  | @kept seen base line ls outcome plain fits _ ih =>
    rw [scanFrom_plain plain fits, ih]
    cases outcome with
    | error e => rfl
    | ok r =>
      simp only [Except.bind, Except.map, Inlining.definitions]
      cases hline : definition? line with
      | none => rw [List.filterMap_cons_none hline]; rfl
      | some d => rw [List.filterMap_cons_some hline]; rfl
  | overflowed more overflows => exact scanFrom_overflows overflows
  | dropped unresolved _ ih => rw [scanFrom_unresolved unresolved, ih]
  | @again seen base line ls outcome file included old _ ih =>
    rw [scanFrom_include included, if_pos old, ih]
    cases outcome with
    | error e => rfl
    | ok r =>
      simp [Except.bind, Except.map, Inlining.definitions]
  | unreadable included new refused =>
    rw [scanFrom_include included, if_neg new, refused]
    rfl
  | failed included new read _ ih =>
    rw [scanFrom_include included, if_neg new, read]
    dsimp only
    rw [ih]
    rfl
  | @first seen base line ls file source r outcome included new read _ _ inner rest =>
    rw [scanFrom_include included, if_neg new, read]
    dsimp only
    rw [inner]
    simp only [Except.bind, List.append_assoc, List.singleton_append]
    rw [rest]
    cases outcome with
    | error e => rfl
    | ok s =>
      simp [Except.bind, Except.map, Inlining.definitions]

/-- What a scan starts with: a text, perhaps in a directory, or a file. -/
inductive Start where
  | text (source : String) (base : Option Path)
  | file (path : Path)

/-- The scan that starts so. -/
def Start.scan (a : Arithmetic) (fs : FileSystem) (directories : List Path) :
    Start → Except ScanStop HeaderScan
  | text source base => scanText a fs directories source base
  | file path => scanFile a fs directories path

/-- The inclusions of a text or a file are followed, with this outcome. A file is the first that is
visited. -/
inductive Follows (a : Arithmetic) (fs : FileSystem) (directories : List Path) :
    Start → Except ScanStop Inlining → Prop where
  | text {source : String} {base : Option Path} {outcome : Except ScanStop Inlining}
      (inclusions : Inlines a fs directories [] base (lines source.toList) outcome) :
      Follows a fs directories (.text source base) outcome
  | lost {path : Path} {cause : OsError} (refused : fs.canonicalize path = .error cause) :
      Follows a fs directories (.file path) (.error (.failed (.unreadable path cause)))
  | unreadable {path file : Path} {cause : OsError} (canonical : fs.canonicalize path = .ok file)
      (refused : fs.readText file = .error cause) :
      Follows a fs directories (.file path) (.error (.failed (.unreadable file cause)))
  | file {path file : Path} {source : String} {outcome : Except ScanStop Inlining}
      (canonical : fs.canonicalize path = .ok file) (read : fs.readText file = .ok source)
      (inclusions : Inlines a fs directories [file] file.parent? (lines source.toList) outcome) :
      Follows a fs directories (.file path) (outcome.map fun r => ⟨file :: r.visits, r.text⟩)

/-- The scan tells what the inclusions came to. -/
structure Tells (fs : FileSystem) (r : Inlining) (scan : HeaderScan) : Prop where
  /-- No file is listed twice. -/
  distinct : scan.files.Nodup
  /-- The files stand in the order of their first visits. -/
  order : scan.files = r.visits.eraseDups
  canonical : ∀ p ∈ scan.files, fs.canonicalize p = .ok p
  regular : ∀ p ∈ scan.files, fs.isFile p = true
  /-- The definitions in the lines that are left are processed one after the other. -/
  constants : scan.constants = constantsOf r.definitions
  /-- No name stands twice in the table. -/
  sorted : scan.constants.Sorted
  /-- A name has the constant of the last of its definitions that gives one. -/
  latest : ∀ name c, Fields.get? scan.constants name = some c ↔ Prevails r.definitions name c

theorem exists_follows (a : Arithmetic) (fs : FileSystem) (directories : List Path)
    (start : Start) : ∃ outcome, Follows a fs directories start outcome := by
  cases start with
  | text source base =>
    obtain ⟨outcome, h⟩ := exists_inlines a fs directories [] base (lines source.toList)
    exact ⟨outcome, .text h⟩
  | file path =>
    cases hcanonical : fs.canonicalize path with
    | error cause => exact ⟨_, .lost hcanonical⟩
    | ok file =>
      cases hread : fs.readText file with
      | error cause => exact ⟨_, .unreadable hcanonical hread⟩
      | ok source =>
        obtain ⟨outcome, h⟩ :=
          exists_inlines a fs directories [file] file.parent? (lines source.toList)
        exact ⟨_, .file hcanonical hread h⟩

/-- The scan that inclusions come to. -/
def Inlining.scan (r : Inlining) : HeaderScan :=
  ⟨constantsOf r.definitions, r.visits.eraseDups⟩

theorem scanFrom_of_inlines_nil {seen : List Path} {base : Option Path} {ls : List (List Char)}
    {outcome : Except ScanStop Inlining} (h : Inlines a fs directories seen base ls outcome) :
    scanFrom a fs directories seen [] (pendingOfLines base ls) =
      outcome.map fun r => Inlining.scan ⟨seen ++ r.visits, r.text⟩ := by
  have hscan := scanFrom_of_inlines h [] []
  rw [List.append_nil] at hscan
  rw [hscan]
  cases outcome with
  | error e => rfl
  | ok r =>
    show scanFrom _ _ _ _ _ _ = _
    rw [scanFrom, scanPending]
    rfl

theorem scan_of_follows {start : Start} {outcome : Except ScanStop Inlining}
    (h : Follows a fs directories start outcome) :
    start.scan a fs directories = outcome.map Inlining.scan := by
  cases h with
  | text inclusions =>
    have hscan := scanFrom_of_inlines_nil inclusions
    rw [scanFrom, unvisited_nil] at hscan
    exact hscan
  | @lost path cause refused =>
    have hloc : fs.locate .reach path = .error cause := by
      unfold FileSystem.canonicalize at refused
      cases hloc : fs.locate .reach path with
      | error cause' =>
        rw [hloc] at refused
        cases refused
        rfl
      | ok loc =>
        rw [hloc] at refused
        cases refused
    simp only [Start.scan, scanFile, hloc]
    rfl
  | unreadable canonical refused =>
    obtain ⟨loc, hloc, rfl⟩ := FileSystem.canonicalize_eq_ok.1 canonical
    simp only [Start.scan, scanFile, hloc, refused]
    rfl
  | @file path file source outcome canonical read inclusions =>
    obtain ⟨loc, hloc, rfl⟩ := FileSystem.canonicalize_eq_ok.1 canonical
    have hregular : loc ∈ fs.regularFiles := by
      obtain ⟨found, hread⟩ := FileSystem.readText_eq_ok.1 read
      obtain ⟨hfound, htext⟩ := FileSystem.readFile_eq_ok.1 hread
      rw [FileSystem.locate_toPath (FileSystem.reached_of_locate hloc)] at hfound
      cases hfound
      rw [FileSystem.mem_regularFiles, htext]
      rfl
    have hscan := scanFrom_of_inlines_nil inclusions
    rw [scanFrom, ← List.nil_append [loc.toPath], ← erase_unvisited hregular, unvisited_nil]
      at hscan
    simp only [Start.scan, scanFile, hloc, read]
    cases outcome <;> exact hscan

theorem tells_of_scan {start : Start} {r : Inlining}
    (h : start.scan a fs directories = .ok r.scan) : Tells fs r r.scan := by
  have htext : ∀ p ∈ r.scan.files, fs.IsText p := by
    cases start with
    | text source base => exact isText_of_scanText h
    | file path => exact isText_of_scanFile h
  constructor
  · exact nodup_eraseDups _
  · rfl
  · intro p hp
    exact (htext p hp).canonical
  · intro p hp
    exact (htext p hp).isFile
  · rfl
  · exact sorted_constantsOf _
  · intro name c
    rw [Inlining.scan, get?_constantsOf]
    exact value?_eq_some_iff

/-- Following the inclusions of a text or a file ends, whatever the files are and however they
include each other, and the scan comes to what the inclusions come to. -/
theorem scan_follows_inclusions (a : Arithmetic) (fs : FileSystem) (directories : List Path)
    (start : Start) :
    (∃ outcome, Follows a fs directories start outcome) ∧
    ∀ outcome, Follows a fs directories start outcome →
      match outcome with
      | .error e => start.scan a fs directories = .error e
      | .ok r => ∃ scan, start.scan a fs directories = .ok scan ∧ Tells fs r scan := by
  constructor
  · exact exists_follows a fs directories start
  · intro outcome h
    have hscan := scan_of_follows h
    cases outcome with
    | error e => exact hscan
    | ok r => exact ⟨r.scan, hscan, tells_of_scan hscan⟩

/-- A header that includes itself under another spelling is read once, and the text that includes it
may name its constant. -/
theorem own_header_read_once :
    let fs := FileSystem.ofEntries ⟨"/"⟩
      [(⟨"/inc/a.h"⟩, .file (.text "#include \"../inc/a.h\"\n#define FIRST 1\n"))]
    let start := Start.text "#include <a.h>\n#define LAST FIRST\n" none
    let r : Inlining := ⟨[⟨"/inc/a.h"⟩, ⟨"/inc/a.h"⟩],
      ["#define FIRST 1".toList, "#define LAST FIRST".toList]⟩
    Follows .checked fs [⟨"/inc"⟩] start (.ok r) ∧
      ∃ scan, start.scan .checked fs [⟨"/inc"⟩] = .ok scan ∧ scan.files = [⟨"/inc/a.h"⟩] ∧
        Fields.get? scan.constants "LAST" = some (.int 1) := by
  intro fs start r
  have houter : Includes fs [⟨"/inc"⟩] none "#include <a.h>".toList ⟨"/inc/a.h"⟩ :=
    ⟨"a.h", false, ⟨"/inc/a.h"⟩, by decide +kernel, by decide +kernel, by rfl⟩
  have hinner : Includes fs [⟨"/inc"⟩] (some ⟨"/inc"⟩) "#include \"../inc/a.h\"".toList
      ⟨"/inc/a.h"⟩ :=
    ⟨"../inc/a.h", true, ⟨"/inc/../inc/a.h"⟩, by decide +kernel, by decide +kernel, by rfl⟩
  have hfirst : definition? "#define FIRST 1".toList = some ("FIRST", ['1']) := by rfl
  have hlast : definition? "#define LAST FIRST".toList = some ("LAST", "FIRST".toList) := by rfl
  have hone : ¬ Overflows .checked "#define FIRST 1".toList :=
    @not_overflows _ _ _ _ (some (.int 1)) hfirst (by cbv)
  have hnamed : ¬ Overflows .checked "#define LAST FIRST".toList :=
    @not_overflows _ _ _ _ none hlast (by cbv)
  have hread : fs.readText ⟨"/inc/a.h"⟩ = .ok "#include \"../inc/a.h\"\n#define FIRST 1\n" := by
    rfl
  have hheader : Inlines .checked fs [⟨"/inc"⟩] [⟨"/inc/a.h"⟩] (some ⟨"/inc"⟩)
      ["#include \"../inc/a.h\"".toList, "#define FIRST 1".toList]
      (.ok ⟨[⟨"/inc/a.h"⟩], ["#define FIRST 1".toList]⟩) :=
    .again hinner (by decide) (.kept (plain_of_definition? hfirst) hone (.done _ _))
  have htext : Inlines .checked fs [⟨"/inc"⟩] [] none
      ["#include <a.h>".toList, "#define LAST FIRST".toList] (.ok r) :=
    .first houter List.not_mem_nil hread hheader
      (.kept (plain_of_definition? hlast) hnamed (.done _ _))
  have hfollows : Follows .checked fs [⟨"/inc"⟩] start (.ok r) := .text htext
  obtain ⟨scan, hscan, htells⟩ :=
    (scan_follows_inclusions .checked fs [⟨"/inc"⟩] start).2 _ hfollows
  refine ⟨hfollows, scan, hscan, ?_, ?_⟩
  · rw [htells.order]
    decide
  · rw [htells.constants]
    cbv

/-- An absolute name is a path as it stands: its header is read from angle brackets although there
is no directory to look in. -/
theorem absolute_name_read :
    let fs := FileSystem.ofEntries ⟨"/"⟩ [(⟨"/abs.h"⟩, .file (.text "#define X 1\n"))]
    scanText .checked fs [] "#include </abs.h>\n" none = .ok ⟨[("X", .int 1)], [⟨"/abs.h"⟩]⟩ ∧
      scanText .checked fs [] "#include </abs.h>\n" none ≠ .ok ⟨[], []⟩ := by
  intro fs
  have hincluded : Includes fs [] none "#include </abs.h>".toList ⟨"/abs.h"⟩ :=
    ⟨"/abs.h", false, ⟨"/abs.h"⟩, by decide +kernel, by decide +kernel, by rfl⟩
  have hdefinition : definition? "#define X 1".toList = some ("X", ['1']) := by rfl
  have hfits : ¬ Overflows .checked "#define X 1".toList :=
    @not_overflows _ _ _ _ (some (.int 1)) hdefinition (by cbv)
  have hread : fs.readText ⟨"/abs.h"⟩ = .ok "#define X 1\n" := by rfl
  have hheader : Inlines .checked fs [] [⟨"/abs.h"⟩] (some ⟨"/"⟩) ["#define X 1".toList]
      (.ok ⟨[], ["#define X 1".toList]⟩) :=
    .kept (plain_of_definition? hdefinition) hfits (.done _ _)
  have htext : Inlines .checked fs [] [] none ["#include </abs.h>".toList]
      (.ok ⟨[⟨"/abs.h"⟩], ["#define X 1".toList]⟩) :=
    .first hincluded List.not_mem_nil hread hheader (.done _ _)
  have hfollows : Follows .checked fs [] (.text "#include </abs.h>\n" none)
      (.ok ⟨[⟨"/abs.h"⟩], ["#define X 1".toList]⟩) := .text htext
  have hscan : scanText .checked fs [] "#include </abs.h>\n" none =
      .ok ⟨constantsOf [("X", ['1'])], [⟨"/abs.h"⟩]⟩ := scan_of_follows hfollows
  have hconstants : constantsOf [("X", ['1'])] = [("X", .int 1)] := by cbv
  rw [hscan, hconstants]
  constructor
  · rfl
  · intro h
    cases h

end ScriptBuild.Header
