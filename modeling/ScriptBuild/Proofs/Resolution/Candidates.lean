import Mathlib.Data.List.Basic
import ScriptBuild.FileSystem.Build
import ScriptBuild.Proofs.Resolution.Grammar

/-!
# The candidates of a specifier

A module is a file below a directory, named after the segments of its specifier, or the `init` file
of a directory that is named so. Main statements: `candidatesAt_join` says which two paths these
are, `firstFile_of_found` and `firstFile_of_none` what is found among candidates and how far the
search goes, and `first_file_wins` what the search directories answer.
-/

namespace ScriptBuild

namespace FileSystem

variable {fs : FileSystem} {p file : Path}

theorem probe_eq_none_iff :
    fs.probe p = none ↔ fs.isFile p = false := by
  unfold probe isFile
  cases fs.locate .reach p with
  | error => simp
  | ok loc => simp

theorem isFile_iff : fs.isFile p = true ↔ ∃ file, fs.probe p = some file := by
  rw [← Option.ne_none_iff_exists', Ne, probe_eq_none_iff, Bool.not_eq_false]

theorem probe_eq_some_iff :
    fs.probe p = some file ↔ fs.isFile p = true ∧ fs.canonicalize p = .ok file := by
  unfold probe isFile canonicalize
  cases fs.locate .reach p with
  | error => simp
  | ok loc => simp [Except.map]

end FileSystem

namespace Path

variable {p q s : Path}

/-- Following one relative path after another is following them joined. -/
theorem join_assoc (hq : q.isAbsolute = false) (hs : s.isAbsolute = false) (p : Path) :
    (p.join q).join s = p.join (q.join s) := by
  obtain ⟨before, last, hp⟩ := p.exists_pieces
  obtain ⟨between, final, hbetween⟩ := q.exists_pieces
  have hjoined : (q.join s).isAbsolute = false := (isAbsolute_join_eq hs).trans hq
  have hfirst : (p.join q).pieces =
      ((if last = "" then before else before ++ [last]) ++ between) ++ [final] := by
    rw [pieces_join hp hq, hbetween, List.append_assoc]
  apply pieces_inj
  rw [pieces_join hfirst hs, pieces_join hp hjoined, pieces_join hbetween hs]
  split <;> simp

/-- An extension goes to the last path that is joined. -/
theorem withExtension_join (hq : q.isAbsolute = false) (hne : q.isEmpty = false) (p : Path)
    (extension : String) :
    (p.join q).withExtension extension = p.join (q.withExtension extension) := by
  have hrelative : (q.withExtension extension).isAbsolute = false := by
    rw [withExtension, String.append_assoc]
    exact (isAbsolute_append hne _).trans hq
  unfold join
  rw [hq, hrelative, if_neg Bool.false_ne_true, if_neg Bool.false_ne_true]
  split <;> simp [withExtension, String.append_assoc]

end Path

namespace ModuleName

variable {m : ModuleName}

/-- The path of the module's file below the directory in which it is looked up. -/
def file (m : ModuleName) (extension : String) : Path :=
  ⟨"/".intercalate m.segments ++ "." ++ extension⟩

/-- The name of the module that stands for the directory with the name. -/
def init (m : ModuleName) : ModuleName :=
  { m with segments := m.segments ++ ["init"] }

/-- The path that enters the segments. -/
def tail (m : ModuleName) : Path :=
  ⟨"/".intercalate m.segments⟩

theorem pieces_tail (h : m.isProper = true) : m.tail.pieces = m.segments := by
  obtain ⟨hne, hsegments⟩ := isProper_iff.1 h
  exact Path.pieces_intercalate hne fun text htext =>
    (isPiece_of_isSegment (hsegments text htext)).1.no_slash

theorem relative_tail (h : m.isProper = true) :
    m.tail.isAbsolute = false ∧ m.tail.isEmpty = false := by
  obtain ⟨hne, hsegments⟩ := isProper_iff.1 h
  obtain ⟨first, more, hfirst⟩ := List.exists_cons_of_ne_nil hne
  refine Path.relative_of_pieces ((pieces_tail h).trans hfirst) ?_
  exact (isSegment_iff.1 (hsegments first (hfirst ▸ List.mem_cons_self))).1

theorem isAbsolute_file (h : m.isProper = true) (extension : String) :
    (m.file extension).isAbsolute = false := by
  obtain ⟨hrelative, hne⟩ := relative_tail h
  rw [file, String.append_assoc]
  exact (Path.isAbsolute_append hne _).trans hrelative

theorem isProper_init (h : m.isProper = true) : m.init.isProper = true := by
  refine isProper_iff.2 ⟨by simp [init], fun text htext => ?_⟩
  rcases List.mem_append.1 htext with hin | hinit
  · exact (isProper_iff.1 h).2 text hin
  · rw [List.mem_singleton.1 hinit]
    decide

theorem tail_join_init (h : m.isProper = true) :
    m.tail.join Resolver.packageFile = m.init.tail := by
  obtain ⟨above, last, hlast, hsegment⟩ := exists_last h
  have hfilled : last ≠ "" := (isSegment_iff.1 hsegment).1
  apply Path.pieces_inj
  rw [Path.pieces_join ((pieces_tail h).trans hlast) (by decide), if_neg hfilled, ← hlast,
    pieces_tail (isProper_init h)]
  rfl

end ModuleName

namespace Resolver

variable {fs : FileSystem} {cs before after : List Candidate} {c : Candidate} {file : Path}
  {m : ModuleName}

/-- The two files below a directory that may hold the module, the module file first. -/
def filesIn (r : Resolver) (m : ModuleName) (directory : Path) (base : CandidateBase) :
    List Candidate :=
  [⟨directory.join (m.file r.extension), .file, base⟩,
   ⟨directory.join (m.init.file r.extension), .package, base⟩]

theorem candidatesAt_join (h : m.isProper = true) (r : Resolver) (directory : Path)
    (base : CandidateBase) :
    r.candidatesAt (directory.join m.tail) base = r.filesIn m directory base := by
  obtain ⟨hrelative, hne⟩ := ModuleName.relative_tail h
  obtain ⟨hrelative', hne'⟩ := ModuleName.relative_tail (ModuleName.isProper_init h)
  rw [candidatesAt, Path.join_assoc hrelative (by decide), ModuleName.tail_join_init h,
    Path.withExtension_join hrelative hne, Path.withExtension_join hrelative' hne']
  rfl

/-- The candidates of a name that does not climb, in the search directories. -/
theorem searchCandidates_eq (h : m.isProper = true) (hclimbs : m.climbs = 0) (r : Resolver) :
    r.searchCandidates m = r.searchDirectories.flatMap fun d => r.filesIn m d (.search d) := by
  have hpath : m.toPath = m.tail := by
    apply Path.pieces_inj
    rw [ModuleName.pieces_toPath h, ModuleName.pieces_tail h, hclimbs]
    rfl
  unfold searchCandidates
  simp only [hpath, candidatesAt_join h]

/-- Behind candidates that are no files, a file is found, and the search ends there. -/
theorem firstFile_of_found (hbefore : ∀ b ∈ before, fs.isFile b.path = false)
    (hc : fs.probe c.path = some file) (after : List Candidate) :
    firstFile fs (before ++ c :: after) = (some file, before ++ [c]) := by
  induction before with
  | nil => simp [firstFile, hc]
  | cons b before ih =>
    have hnone := FileSystem.probe_eq_none_iff.2 (hbefore b List.mem_cons_self)
    have hrest := ih fun b hb => hbefore b (List.mem_cons_of_mem _ hb)
    simp [firstFile, hnone, hrest]

/-- The search goes no further than to a candidate that is a file. -/
theorem firstFile_tried_prefix (hc : fs.isFile c.path = true) (before after : List Candidate) :
    (firstFile fs (before ++ c :: after)).2 <+: before ++ [c] := by
  obtain ⟨file, hprobe⟩ := FileSystem.isFile_iff.1 hc
  induction before with
  | nil => simp [firstFile, hprobe]
  | cons b before ih =>
    rcases hb : fs.probe b.path with _ | file
    · simpa [firstFile, hb] using ih
    · simp [firstFile, hb]

/-- If none of them is a file, all candidates are looked at. -/
theorem firstFile_of_none (h : ∀ c ∈ cs, fs.isFile c.path = false) :
    firstFile fs cs = (none, cs) := by
  induction cs with
  | nil => rfl
  | cons c cs ih =>
    have hnone := FileSystem.probe_eq_none_iff.2 (h c List.mem_cons_self)
    have hrest := ih fun c hc => h c (List.mem_cons_of_mem _ hc)
    simp [firstFile, hnone, hrest]

theorem firstFile_fst (fs : FileSystem) (cs : List Candidate) :
    (firstFile fs cs).1 = cs.findSome? fun c => fs.probe c.path := by
  induction cs with
  | nil => rfl
  | cons c cs ih => cases hprobe : fs.probe c.path <;> simp [firstFile, hprobe, ih]

/-- Of candidates among which there is a file, one is the first. -/
theorem exists_first (h : ∃ c ∈ cs, fs.isFile c.path = true) :
    ∃ before c after, cs = before ++ c :: after ∧ (∀ b ∈ before, fs.isFile b.path = false) ∧
      fs.isFile c.path = true := by
  obtain ⟨c, hfind⟩ := Option.isSome_iff_exists.1 (List.find?_isSome.2 h)
  obtain ⟨hfile, before, after, hcs, hbefore⟩ := List.find?_eq_some_iff_append.1 hfind
  exact ⟨before, c, after, hcs, fun b hb => by simpa using hbefore b hb, hfile⟩

/-- What is looked up for a name that does not climb. -/
def searched (r : Resolver) (m : ModuleName) : List Candidate :=
  r.searchDirectories.flatMap fun d => r.filesIn m d (.search d)

section Qualified

variable {r : Resolver} {origin : Option Path} {found : Resolved}
  (proper : m.isProper = true) (qualified : m.climbs = 0)

include proper qualified

theorem resolve_spelling :
    r.resolve fs m.spelling origin =
      answer m.spelling origin (firstFile fs (r.searched m)).1 (firstFile fs (r.searched m)).2 := by
  have hparse := Specifier.parse_spelling proper
  have hqualified : ¬ (Specifier.parse m.spelling).isRelative = true := by
    rw [hparse, ModuleName.isRelative, qualified]
    decide
  rw [resolve_of_qualified (Specifier.isModuleName_spelling proper) hqualified, hparse,
    searchCandidates_eq proper qualified, searched]

/-- The first candidate that is a file is the answer, and the candidates up to it are reported. -/
theorem resolve_of_first (hsplit : r.searched m = before ++ c :: after)
    (hbefore : ∀ b ∈ before, fs.isFile b.path = false) (hc : fs.probe c.path = some file) :
    r.resolve fs m.spelling origin = .ok ⟨file, before ++ [c]⟩ := by
  rw [resolve_spelling proper qualified, hsplit, firstFile_of_found hbefore hc, answer]

theorem resolve_of_no_file (h : ∀ c ∈ r.searched m, fs.isFile c.path = false) :
    r.resolve fs m.spelling origin = .error (.exhausted m.spelling origin (r.searched m)) := by
  rw [resolve_spelling proper qualified, firstFile_of_none h, answer]

/-- What is found is the first candidate that is a file. -/
theorem exists_first_of_resolve (h : r.resolve fs m.spelling origin = .ok found) :
    ∃ before c after, r.searched m = before ++ c :: after ∧
      (∀ b ∈ before, fs.isFile b.path = false) ∧ fs.probe c.path = some found.path ∧
      found.tried = before ++ [c] := by
  by_cases hfile : ∃ c ∈ r.searched m, fs.isFile c.path = true
  · obtain ⟨before, c, after, hsplit, hbefore, hc⟩ := exists_first hfile
    obtain ⟨file, hprobe⟩ := FileSystem.isFile_iff.1 hc
    rw [resolve_of_first proper qualified hsplit hbefore hprobe] at h
    cases h
    exact ⟨before, c, after, hsplit, hbefore, hprobe, rfl⟩
  · have hnone : ∀ c ∈ r.searched m, fs.isFile c.path = false := by simpa using hfile
    rw [resolve_of_no_file proper qualified hnone] at h
    cases h

/-- More directories at the end of the list change nothing about what is found. -/
theorem resolve_append (more : List Path) (h : r.resolve fs m.spelling origin = .ok found) :
    ({ r with searchDirectories := r.searchDirectories ++ more } : Resolver).resolve fs m.spelling
      origin = .ok found := by
  obtain ⟨before, c, after, hsplit, hbefore, hc, htried⟩ :=
    exists_first_of_resolve proper qualified h
  have hmore : ({ r with searchDirectories := r.searchDirectories ++ more } : Resolver).searched m =
      before ++ c :: (after ++ more.flatMap fun d => r.filesIn m d (.search d)) := by
    rw [← List.cons_append, ← List.append_assoc, ← hsplit]
    exact List.flatMap_append
  rw [resolve_of_first proper qualified hmore hbefore hc, ← htried]

/-- In a directory that has the module file, no package is looked at. -/
theorem package_not_tried {d : Path} (hd : d ∈ r.searchDirectories)
    (hfile : fs.isFile (d.join (m.file r.extension)) = true) :
    ∃ found, r.resolve fs m.spelling origin = .ok found ∧
      ⟨d.join (m.init.file r.extension), .package, .search d⟩ ∉ found.tried := by
  -- The first time that the directory is on the list, the module file in it ends the search.
  obtain ⟨earlier, later, hlist, hnew⟩ := List.eq_append_cons_of_mem hd
  have hsplit : r.searched m = (earlier.flatMap fun d => r.filesIn m d (.search d)) ++
      ⟨d.join (m.file r.extension), .file, .search d⟩ ::
        ⟨d.join (m.init.file r.extension), .package, .search d⟩ ::
          later.flatMap fun d => r.filesIn m d (.search d) := by
    rw [searched, hlist, List.flatMap_append, List.flatMap_cons]
    rfl
  have hleaf : fs.isFile (Candidate.mk (d.join (m.file r.extension)) .file (.search d)).path =
      true := hfile
  have hstart : (firstFile fs (r.searched m)).2 <+:
      (earlier.flatMap fun d => r.filesIn m d (.search d)) ++
        [⟨d.join (m.file r.extension), .file, .search d⟩] := by
    rw [hsplit]
    exact firstFile_tried_prefix hleaf _ _
  have hmem : ⟨d.join (m.file r.extension), .file, .search d⟩ ∈ r.searched m := by
    rw [hsplit]
    exact List.mem_append_right _ List.mem_cons_self
  obtain ⟨before, c, after, hfirst, hbefore, hc⟩ := exists_first ⟨_, hmem, hleaf⟩
  obtain ⟨file, hprobe⟩ := FileSystem.isFile_iff.1 hc
  rw [hfirst, firstFile_of_found hbefore hprobe after] at hstart
  refine ⟨_, resolve_of_first proper qualified hfirst hbefore hprobe, fun hpackage => ?_⟩
  rcases List.mem_append.1 (hstart.subset hpackage) with hin | hlast
  · obtain ⟨d', hd', hcandidate⟩ := List.mem_flatMap.1 hin
    have hbase : CandidateBase.search d = .search d' := by
      simp only [filesIn, List.mem_cons, List.not_mem_nil, or_false, Candidate.mk.injEq]
        at hcandidate
      rcases hcandidate with ⟨_, _, hbase⟩ | ⟨_, _, hbase⟩ <;> exact hbase
    exact hnew (CandidateBase.search.inj hbase ▸ hd')
  · have hkind : CandidateKind.package = .file :=
      congrArg Candidate.kind (List.mem_singleton.1 hlast)
    cases hkind

end Qualified

/-- A name that does not climb has two candidates in each search directory, the module file and then
the `init` file. It stands for the first candidate that leads to a regular file, by its canonical
path, and the candidates up to that one are reported; if there is none, all of them are. So what is
found is not changed by directories at the end of the list, and no package is looked at in a
directory that has the module file. -/
theorem first_file_wins (r : Resolver) (fs : FileSystem) (origin : Option Path) {m : ModuleName}
    (proper : m.isProper = true) (qualified : m.climbs = 0) :
    let candidates := r.searchDirectories.flatMap fun d => r.filesIn m d (.search d)
    ((∃ c ∈ candidates, fs.isFile c.path = true) →
      ∃ before c after file, candidates = before ++ c :: after ∧
        (∀ b ∈ before, fs.isFile b.path = false) ∧ fs.isFile c.path = true ∧
        fs.canonicalize c.path = .ok file ∧
        r.resolve fs m.spelling origin = .ok ⟨file, before ++ [c]⟩) ∧
    ((∀ c ∈ candidates, fs.isFile c.path = false) →
      r.resolve fs m.spelling origin = .error (.exhausted m.spelling origin candidates)) ∧
    (∀ more found, r.resolve fs m.spelling origin = .ok found →
      ({ r with searchDirectories := r.searchDirectories ++ more } : Resolver).resolve fs m.spelling
        origin = .ok found) ∧
    ∀ d ∈ r.searchDirectories, fs.isFile (d.join (m.file r.extension)) = true →
      ∃ found, r.resolve fs m.spelling origin = .ok found ∧
        ⟨d.join (m.init.file r.extension), .package, .search d⟩ ∉ found.tried := by
  intro candidates
  refine ⟨fun h => ?_, resolve_of_no_file proper qualified,
    fun more _ => resolve_append proper qualified more,
    fun _ => package_not_tried proper qualified⟩
  obtain ⟨before, c, after, hsplit, hbefore, hc⟩ := exists_first h
  obtain ⟨file, hprobe⟩ := FileSystem.isFile_iff.1 hc
  exact ⟨before, c, after, file, hsplit, hbefore, hc, (FileSystem.probe_eq_some_iff.1 hprobe).2,
    resolve_of_first proper qualified hsplit hbefore hprobe⟩

/-- A link that leads nowhere and a directory with the name of a module are passed over. -/
theorem file_behind_link_wins :
    let fs := FileSystem.ofEntries ⟨"/"⟩
      [(⟨"/a/net/http.t"⟩, .link ⟨"/gone"⟩), (⟨"/a/net/http/init.t"⟩, .directory),
        (⟨"/b/net/http.t"⟩, .link ⟨"../../real.t"⟩), (⟨"/b/net/http/init.t"⟩, .file (.text "")),
        (⟨"/real.t"⟩, .file (.text ""))]
    let r : Resolver := ⟨[⟨"/a"⟩, ⟨"b/"⟩, ⟨"/a"⟩], "t"⟩
    let m : ModuleName := ⟨0, ["net", "http"]⟩
    let tried : List Candidate :=
      [⟨⟨"/a/net/http.t"⟩, .file, .search ⟨"/a"⟩⟩,
        ⟨⟨"/a/net/http/init.t"⟩, .package, .search ⟨"/a"⟩⟩,
        ⟨⟨"b/net/http.t"⟩, .file, .search ⟨"b/"⟩⟩]
    m.isProper = true ∧ m.climbs = 0 ∧ m.spelling = "net.http" ∧
      r.resolve fs m.spelling none = .ok ⟨⟨"/real.t"⟩, tried⟩ ∧
      ∃ before c, before ++ [c] = tried ∧ (∀ b ∈ before, fs.isFile b.path = false) ∧
        fs.isFile c.path = true := by
  intro fs r m tried
  have proper : m.isProper = true := by decide +kernel
  have hvalue : r.resolve fs m.spelling none = .ok ⟨⟨"/real.t"⟩, tried⟩ := by decide +kernel
  have hfile : ∃ c ∈ r.searchDirectories.flatMap fun d => r.filesIn m d (.search d),
      fs.isFile c.path = true :=
    ⟨⟨⟨"b/net/http.t"⟩, .file, .search ⟨"b/"⟩⟩, by decide +kernel, by decide +kernel⟩
  obtain ⟨before, c, after, file, _, hbefore, hc, _, hresolve⟩ :=
    (first_file_wins r fs none proper rfl).1 hfile
  have hfound : Resolved.mk ⟨"/real.t"⟩ tried = ⟨file, before ++ [c]⟩ :=
    Except.ok.inj (hvalue.symm.trans hresolve)
  exact ⟨proper, rfl, by decide +kernel, hvalue, before, c, (Resolved.mk.inj hfound).2.symm,
    hbefore, hc⟩

end Resolver

end ScriptBuild
