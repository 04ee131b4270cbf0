import ScriptBuild.Proofs.FileSystem.Detour
import ScriptBuild.Proofs.Resolution.Candidates

/-!
# Names that climb

A name that climbs is looked up from the directory of the file that asks for it. The levels are
taken off the text of that directory, and not followed on the disk. Main statements:
`relativeTarget_eq` says in which directory the candidates are, `locate_climbed` that from a place
one gets there by following as many `..` too, and `climbs_exactly` what the candidates answer.
-/

namespace ScriptBuild

namespace Location

variable {loc : Location} {q : Path}

theorem pieces_toPath_of_isPiece (h : ∀ name ∈ loc, Path.IsPiece name) :
    loc.toPath.pieces = "" :: if loc = [] then [""] else loc := by
  have hempty : Path.pieces ⟨""⟩ = [""] := rfl
  have htext : loc.toPath = ⟨"" ++ "/" ++ "/".intercalate loc⟩ := by
    rw [String.empty_append]
    rfl
  rw [htext, Path.pieces_slash, hempty]
  split
  · next hnil => simp [hnil, hempty]
  · next hne =>
    rw [Path.pieces_intercalate hne fun name hname => (h name hname).no_slash]
    rfl

/-- What is joined to the path of a location goes on behind its names. -/
theorem pieces_join (h : ∀ name ∈ loc, Path.IsPiece name) (hq : q.isAbsolute = false) :
    (loc.toPath.join q).pieces = "" :: (loc ++ q.pieces) := by
  have hpieces := pieces_toPath_of_isPiece h
  rcases List.eq_nil_or_concat loc with hnil | ⟨above, last, hlast⟩
  · rw [if_pos hnil] at hpieces
    have hroot : loc.toPath.pieces = [""] ++ [""] := hpieces
    rw [Path.pieces_join hroot hq, if_pos rfl, hnil]
    rfl
  · rw [List.concat_eq_append] at hlast
    have hfilled : last ≠ "" := (h last (by simp [hlast])).ne_empty
    rw [if_neg (by simp [hlast])] at hpieces
    have hsplit : loc.toPath.pieces = ("" :: above) ++ [last] := by rw [hpieces, hlast]; rfl
    rw [Path.pieces_join hsplit hq, if_neg hfilled, hlast]
    rfl

/-- The directory of a location leaves out its last name. -/
theorem directory_toPath (h : loc.all Path.isName = true) :
    loc.toPath.directory = toPath loc.dropLast := by
  rcases List.eq_nil_or_concat loc with rfl | ⟨above, name, rfl⟩
  · decide
  · rw [List.concat_eq_append] at h ⊢
    have hvoid : ∀ n ∈ above ++ [name], Path.isVoid n = false := by
      intro n hn
      have hname := List.all_eq_true.1 h n hn
      simp only [Path.isName, Bool.and_eq_true, Bool.not_eq_true'] at hname
      exact hname.1.1.1
    have hname : Path.isVoid name = false := hvoid name (by simp)
    have habove : above.reverse.dropWhile Path.isVoid = above.reverse := by
      rcases hrev : above.reverse with _ | ⟨n, more⟩
      · rfl
      · have hn : n ∈ above := List.mem_reverse.1 (hrev ▸ List.mem_cons_self)
        rw [List.dropWhile_cons_of_neg]
        simp [hvoid n (List.mem_append_left _ hn)]
    have hkept : (above ++ [name]).reverse.dropWhile Path.isVoid = name :: above.reverse := by
      simp [hname]
    have hne : above ++ [name] ≠ [] := by simp
    unfold Path.directory Path.parent?
    rw [pieces_toPath h, if_neg hne]
    simp only [hkept, habove, List.reverse_reverse, List.dropLast_concat, if_true]
    rcases above with _ | ⟨first, more⟩
    · rfl
    · rw [Option.getD_some, String.intercalate_cons_of_ne_nil (by simp), String.empty_append]
      rfl

end Location

namespace Path

namespace Normal

theorem leave_root (names : List String) : leave ⟨.root, names⟩ = ⟨.root, names.dropLast⟩ := by
  rcases names with _ | ⟨name, names⟩ <;> rfl

/-- Levels are taken off the end of the names; the root is not left. -/
theorem foldl_climbs (levels : Nat) (names : List String) :
    (List.replicate levels "..").foldl enter ⟨.root, names⟩ =
      ⟨.root, names.take (names.length - levels)⟩ := by
  rw [← Location.iterate_dropLast]
  induction levels with
  | zero => rfl
  | succ levels ih =>
    rw [List.replicate_succ', List.foldl_append, ih, List.foldl_cons, enter_up, leave_root,
      Function.iterate_succ_apply']
    rfl

/-- Pieces that are neither void nor `..` are the next names. -/
theorem foldl_names {names : List String}
    (h : ∀ name ∈ names, isVoid name = false ∧ name ≠ "..") (n : Normal) :
    names.foldl enter n = ⟨n.start, n.names ++ names⟩ := by
  induction names generalizing n with
  | nil => simp
  | cons name names ih =>
    obtain ⟨hvoid, hup⟩ := h name List.mem_cons_self
    rw [List.foldl_cons, enter_name hvoid hup, ih fun m hm => h m (List.mem_cons_of_mem _ hm),
      List.append_assoc]
    rfl

end Normal

variable {p q : Path}

/-- An absolute path in normal form is the path of a location. -/
theorem normalize_of_isAbsolute (h : p.isAbsolute = true) :
    p.normalize = Location.toPath p.normal.names := by
  have hstart := normal_start_of_isAbsolute h
  by_cases hnil : p.normal.names = []
  · unfold normalize Normal.components
    rw [hstart, hnil]
    decide
  · apply pieces_inj
    rw [normalize, pieces_ofComponents p.proper_normal hnil, hstart,
      Location.pieces_toPath_of_isPiece p.proper_normal, if_neg hnil]
    rfl

/-- The path with `..` behind it, as often as said. -/
def climb (p : Path) : Nat → Path
  | 0 => p
  | levels + 1 => (p.climb levels).join ⟨".."⟩

/-- The pieces of a path that climbs from a location and goes on from there. -/
theorem pieces_climb_join {loc : Location} (h : ∀ name ∈ loc, IsPiece name)
    (hq : q.isAbsolute = false) (levels : Nat) :
    ((loc.toPath.climb levels).join q).pieces =
      "" :: (loc ++ (List.replicate levels ".." ++ q.pieces)) := by
  induction levels generalizing q with
  | zero => exact Location.pieces_join h hq
  | succ levels ih =>
    have hup : pieces ⟨".."⟩ = [] ++ [".."] := by decide
    have hrelative : (join ⟨".."⟩ q).isAbsolute = false := (isAbsolute_join_eq hq).trans (by decide)
    rw [climb, join_assoc (by decide) hq, ih hrelative, pieces_join hup hq,
      if_neg (by decide), List.replicate_succ']
    simp

end Path

namespace FileSystem

variable {fs : FileSystem} {loc : Location} {q origin : Path}

/-- From a place, climbing takes the last names off. -/
theorem Reached.follow_climbs (h : fs.Reached loc) (hdir : fs.isDirectoryAt loc = true)
    (levels : Nat) (names : List String) :
    fs.follow (loc ++ (List.replicate levels ".." ++ names)) =
      fs.follow (List.dropLast^[levels] loc ++ names) := by
  unfold FileSystem.follow
  rw [holdsNul_append, holdsNul_climbs, holdsNul_append, h.holdsNul, (h.iterate levels).holdsNul,
    h.enter_append, h.enter_climbs hdir, (h.iterate levels).enter_append]

/-- From a place, the disk leads up as the text does. -/
theorem locate_climbed (h : fs.Reached loc) (hdir : fs.isDirectoryAt loc = true)
    (hq : q.isAbsolute = false) (levels : Nat) :
    fs.locate .reach ((loc.toPath.climb levels).join q) =
      fs.locate .reach ((Location.toPath (loc.take (loc.length - levels))).join q) := by
  have hclimbed := h.iterate levels
  rw [← Location.iterate_dropLast,
    locate_of_root (Path.pieces_climb_join h.isPiece hq levels) (by simp [q.pieces_ne_nil]),
    locate_of_root (Location.pieces_join hclimbed.isPiece hq) (by simp [q.pieces_ne_nil]),
    h.follow_climbs hdir]

/-- The directory of a canonical path is a place. -/
theorem exists_reached_directory (h : fs.canonicalize origin = .ok origin) :
    ∃ loc, fs.Reached loc ∧ fs.isDirectoryAt loc = true ∧ origin.directory = loc.toPath ∧
      origin.directory.normal.names = loc := by
  obtain ⟨loc, hlocate, rfl⟩ := canonicalize_eq_ok.1 h
  have hreached := reached_of_locate hlocate
  have hdirectory := Location.directory_toPath hreached.isName
  refine ⟨loc.dropLast, hreached.dropLast, ?_, hdirectory, ?_⟩
  · cases hreached with
    | root => rfl
    | enter _ directory _ _ => rwa [List.dropLast_concat]
  · rw [hdirectory, normal_of_isAbsolute (Location.toPath_isAbsolute _),
      @lexical_toPath fs _ hreached.dropLast.isName]

end FileSystem

/-- A name climbs from a directory as far as there are levels, and then enters its segments. -/
theorem ModuleName.normal_join_toPath {m : ModuleName} {p : Path} (proper : m.isProper = true)
    (absolute : p.isAbsolute = true) :
    (p.join m.toPath).normal =
      ⟨.root, p.normal.names.take (p.normal.names.length - m.climbs) ++ m.segments⟩ := by
  have hsegments : ∀ name ∈ m.segments, Path.isVoid name = false ∧ name ≠ ".." :=
    fun name hname => (isPiece_of_isSegment ((isProper_iff.1 proper).2 name hname)).2
  have hbase : p.normal = ⟨.root, p.normal.names⟩ := by
    rw [← Path.normal_start_of_isAbsolute absolute]
  rw [Path.normal_join (isAbsolute_toPath proper), pieces_toPath proper, List.foldl_append, hbase,
    Path.Normal.foldl_climbs, Path.Normal.foldl_names hsegments]

namespace Resolver

variable {m : ModuleName} {origin : Path}

/-- The directory that a name means next to a file: that of the file, so many levels up, as far as
there are any. -/
def climbedDirectory (m : ModuleName) (origin : Path) : Path :=
  let names := origin.directory.normal.names
  Location.toPath (names.take (names.length - m.climbs))

theorem relativeTarget_eq (proper : m.isProper = true) (absolute : origin.isAbsolute = true) :
    relativeTarget m origin = (climbedDirectory m origin).join m.tail := by
  have hdirectory := Path.isAbsolute_directory absolute
  have habsolute : (origin.directory.join m.toPath).isAbsolute = true :=
    Path.isAbsolute_join hdirectory
  have hclimbed : ∀ name ∈ origin.directory.normal.names.take
      (origin.directory.normal.names.length - m.climbs), Path.IsPiece name :=
    fun name hname => origin.directory.proper_normal name (List.mem_of_mem_take hname)
  have hjoined := (origin.directory.join m.toPath).proper_normal
  rw [ModuleName.normal_join_toPath proper hdirectory] at hjoined
  have hne := (ModuleName.isProper_iff.1 proper).1
  show (origin.directory.join m.toPath).normalize = _
  apply Path.pieces_inj
  rw [Path.normalize_of_isAbsolute habsolute, ModuleName.normal_join_toPath proper hdirectory,
    Location.pieces_toPath_of_isPiece hjoined, if_neg (by simp [hne]), climbedDirectory,
    Location.pieces_join hclimbed (ModuleName.relative_tail proper).1,
    ModuleName.pieces_tail proper]

theorem resolve_climbing (proper : m.isProper = true) (climbs : 0 < m.climbs)
    (absolute : origin.isAbsolute = true) (r : Resolver) (fs : FileSystem) :
    r.resolve fs m.spelling (some origin) =
      answer m.spelling (some origin)
        (firstFile fs (r.filesIn m (climbedDirectory m origin) (.origin origin))).1
        (r.filesIn m (climbedDirectory m origin) (.origin origin)) := by
  have hparse := Specifier.parse_spelling proper
  have hrelative : (Specifier.parse m.spelling).isRelative = true := by
    rw [hparse, ModuleName.isRelative]
    exact decide_eq_true climbs
  rw [resolve_of_relative (Specifier.isModuleName_spelling proper) hrelative, hparse,
    relativeCandidates, relativeTarget_eq proper absolute, candidatesAt_join proper]

/-- A name that climbs has two candidates next to a file with an absolute path, the module file and
the `init` file. They are in the directory of the file in normal form, without as many of its last
names as the name climbs, or in the root if it has no more of them. Both are reported, and the name
stands for the first of them that leads to a regular file. If the file that asks is given by its
canonical path, they lead where the same files lead from its directory by way of as many `..`. -/
theorem climbs_exactly (r : Resolver) (fs : FileSystem) {m : ModuleName} {origin : Path}
    (proper : m.isProper = true) (climbs : 0 < m.climbs) (absolute : origin.isAbsolute = true) :
    let names := origin.directory.normal.names
    let base := Location.toPath (names.take (names.length - m.climbs))
    let leaf := base.join (m.file r.extension)
    let package := base.join (m.init.file r.extension)
    let tried : List Candidate :=
      [⟨leaf, .file, .origin origin⟩, ⟨package, .package, .origin origin⟩]
    origin.directory.normalize = Location.toPath names ∧
    (fs.isFile leaf = true → ∃ file, fs.canonicalize leaf = .ok file ∧
      r.resolve fs m.spelling (some origin) = .ok ⟨file, tried⟩) ∧
    (fs.isFile leaf = false → fs.isFile package = true →
      ∃ file, fs.canonicalize package = .ok file ∧
        r.resolve fs m.spelling (some origin) = .ok ⟨file, tried⟩) ∧
    (fs.isFile leaf = false → fs.isFile package = false →
      r.resolve fs m.spelling (some origin) =
        .error (.exhausted m.spelling (some origin) tried)) ∧
    (fs.canonicalize origin = .ok origin →
      ∀ tail ∈ [m.file r.extension, m.init.file r.extension],
        fs.locate .reach (base.join tail) =
          fs.locate .reach ((origin.directory.climb m.climbs).join tail)) := by
  intro names base leaf package tried
  have hresolve : r.resolve fs m.spelling (some origin) =
      answer m.spelling (some origin) (firstFile fs tried).1 tried :=
    resolve_climbing proper climbs absolute r fs
  refine ⟨Path.normalize_of_isAbsolute (Path.isAbsolute_directory absolute), fun hleaf => ?_,
    fun hleaf hpackage => ?_, fun hleaf hpackage => ?_, fun canonical tail htail => ?_⟩
  · obtain ⟨file, hprobe⟩ := FileSystem.isFile_iff.1 hleaf
    refine ⟨file, (FileSystem.probe_eq_some_iff.1 hprobe).2, ?_⟩
    have hfirst : (firstFile fs tried).1 = some file := by simp [firstFile_fst, tried, hprobe]
    rw [hresolve, hfirst, answer]
  · obtain ⟨file, hprobe⟩ := FileSystem.isFile_iff.1 hpackage
    have hnone := FileSystem.probe_eq_none_iff.2 hleaf
    refine ⟨file, (FileSystem.probe_eq_some_iff.1 hprobe).2, ?_⟩
    have hfirst : (firstFile fs tried).1 = some file := by
      simp [firstFile_fst, tried, hnone, hprobe]
    rw [hresolve, hfirst, answer]
  · have hnone : (firstFile fs tried).1 = none := by
      simp [firstFile_eq_none_iff, FileSystem.probe_eq_none_iff, tried, hleaf, hpackage]
    rw [hresolve, hnone, answer]
  · have hrelative : tail.isAbsolute = false := by
      rcases List.mem_cons.1 htail with rfl | htail
      · exact ModuleName.isAbsolute_file proper _
      · rw [List.mem_singleton.1 htail]
        exact ModuleName.isAbsolute_file (ModuleName.isProper_init proper) _
    obtain ⟨loc, hreached, hdir, hdirectory, hnames⟩ :=
      FileSystem.exists_reached_directory canonical
    have hclimb := FileSystem.locate_climbed hreached hdir hrelative m.climbs
    rw [hdirectory, hclimb, ← hnames]

/-- Levels beyond the root end there, and the `init` file that is found may be a link. -/
theorem climb_ends_at_root :
    let fs := FileSystem.ofEntries ⟨"/"⟩
      [(⟨"/lib/main.t"⟩, .file (.text "")), (⟨"/lib/real.t"⟩, .file (.text "")),
        (⟨"/u/init.t"⟩, .link ⟨"../lib/real.t"⟩)]
    let r : Resolver := ⟨[], "t"⟩
    let m : ModuleName := ⟨3, ["u"]⟩
    let origin : Path := ⟨"/lib/main.t"⟩
    let tried : List Candidate :=
      [⟨⟨"/u.t"⟩, .file, .origin origin⟩, ⟨⟨"/u/init.t"⟩, .package, .origin origin⟩]
    m.isProper = true ∧ 0 < m.climbs ∧ origin.isAbsolute = true ∧ m.spelling = "...u" ∧
      fs.canonicalize origin = .ok origin ∧
      r.resolve fs m.spelling (some origin) = .ok ⟨⟨"/lib/real.t"⟩, tried⟩ ∧
      fs.locate .reach ⟨"/u/init.t"⟩ = fs.locate .reach ⟨"/lib/../../../u/init.t"⟩ := by
  intro fs r m origin tried
  have proper : m.isProper = true := by decide +kernel
  have climbs : 0 < m.climbs := by decide
  have absolute : origin.isAbsolute = true := by decide
  have canonical : fs.canonicalize origin = .ok origin := by decide +kernel
  have hbase : Location.toPath (origin.directory.normal.names.take
      (origin.directory.normal.names.length - m.climbs)) = ⟨"/"⟩ := by decide +kernel
  have hleaf : Path.join ⟨"/"⟩ (m.file r.extension) = ⟨"/u.t"⟩ := by decide +kernel
  have hinit : Path.join ⟨"/"⟩ (m.init.file r.extension) = ⟨"/u/init.t"⟩ := by decide +kernel
  have hwinding : (origin.directory.climb m.climbs).join (m.init.file r.extension) =
      ⟨"/lib/../../../u/init.t"⟩ := by decide +kernel
  have hclimbs := climbs_exactly r fs proper climbs absolute
  simp only [hbase, hleaf, hinit] at hclimbs
  obtain ⟨_, _, hpackage, _, hplaces⟩ := hclimbs
  obtain ⟨file, hfile, hresolve⟩ := hpackage (by decide +kernel) (by decide +kernel)
  have hreal : fs.canonicalize ⟨"/u/init.t"⟩ = .ok ⟨"/lib/real.t"⟩ := by decide +kernel
  obtain rfl : file = ⟨"/lib/real.t"⟩ := Except.ok.inj (hfile.symm.trans hreal)
  have hplace := hplaces canonical (m.init.file r.extension) (by simp)
  rw [hinit, hwinding] at hplace
  exact ⟨proper, climbs, absolute, by decide +kernel, canonical, hresolve, hplace⟩

end Resolver

end ScriptBuild
