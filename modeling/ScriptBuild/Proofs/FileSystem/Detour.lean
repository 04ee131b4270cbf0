import ScriptBuild.Proofs.FileSystem.Lexical
import ScriptBuild.Proofs.Path.Relative

/-!
# The way from one place to another

A relative path is worked out on texts, but it is followed from a directory. Main statements:
`locate_detour` says where it leads from any directory, and `follow_detour` that it leads to the
target from the directory that the texts say.
-/

namespace ScriptBuild

namespace FileSystem

variable {fs here : FileSystem} {p q : Path} {loc places names : Location}

/-- The file system seen from one of its directories: relative paths start there. -/
def seenFrom (fs : FileSystem) (loc : Location) (h : fs.Reached loc)
    (hdir : fs.isDirectoryAt loc = true) : FileSystem :=
  { fs with
    workingDirectory := some loc
    settled := by
      intro cwd hcwd above habove hne
      obtain rfl := Option.some.inj hcwd
      have hfound := isDirectoryAt_iff.1 (h.isDirectoryAt_of_prefix hdir habove)
      rwa [lookup?, if_neg hne] at hfound }

/-- The file system seen from the directory that a path leads to. -/
def chdir (fs : FileSystem) (p : Path) : Except OsError FileSystem :=
  match h : fs.locate .reach p with
  | .error e => .error e
  | .ok loc =>
    if hdir : fs.isDirectoryAt loc = true then .ok (fs.seenFrom loc (reached_of_locate h) hdir)
    else .error .notDirectory

theorem chdir_eq_ok (h : fs.chdir p = .ok here) :
    ∃ loc hreached hdir, fs.locate .reach p = .ok loc ∧ here = fs.seenFrom loc hreached hdir := by
  unfold chdir at h
  split at h
  · cases h
  · next loc hloc =>
    split at h
    · next hdir => exact ⟨loc, reached_of_locate hloc, hdir, hloc, (Except.ok.inj h).symm⟩
    · cases h

section SeenFrom

variable (hreached : fs.Reached loc) (hdir : fs.isDirectoryAt loc = true)

/-- Names lead to the same place from wherever the file system is seen. -/
theorem enter_seenFrom (follow : Location → List String → Except OsError Location)
    (start : Location) (names : List String) :
    (fs.seenFrom loc hreached hdir).enter .reach follow start names =
      fs.enter .reach follow start names := by
  induction names generalizing start with
  | nil => rfl
  | cons name names ih =>
    have hlookup : (fs.seenFrom loc hreached hdir).lookup? = fs.lookup? := rfl
    have hdirectory : (fs.seenFrom loc hreached hdir).isDirectoryAt = fs.isDirectoryAt := rfl
    simp only [enter, hlookup, hdirectory, ih]

theorem walk_seenFrom (links : Nat) (start : Location) (names : List String) :
    (fs.seenFrom loc hreached hdir).walk .reach links start names =
      fs.walk .reach links start names := by
  induction links generalizing start names with
  | zero => exact enter_seenFrom hreached hdir _ start names
  | succ links ih =>
    have hwalk : (fs.seenFrom loc hreached hdir).walk .reach links = fs.walk .reach links :=
      funext fun start => funext fun names => ih start names
    rw [walk, hwalk]
    exact enter_seenFrom hreached hdir _ start names

theorem follow_seenFrom (names : List String) :
    (fs.seenFrom loc hreached hdir).follow names = fs.follow names := by
  have hwalk : (fs.seenFrom loc hreached hdir).walk .reach (maxLinks - 1) =
      fs.walk .reach (maxLinks - 1) :=
    funext fun start => funext fun names => walk_seenFrom hreached hdir _ start names
  rw [follow, hwalk, follow, enter_seenFrom]

end SeenFrom

theorem Reached.isPiece (h : fs.Reached loc) : ∀ name ∈ loc, Path.IsPiece name := by
  intro name hname
  have hall := List.all_eq_true.1 h.isName name hname
  simp only [Path.isName, Path.isVoid, Bool.and_eq_true, Bool.not_eq_true', Bool.or_eq_false_iff,
    beq_eq_false_iff_ne, List.contains_eq_mem, decide_eq_false_iff_not] at hall
  exact ⟨hall.1.1.1.1, hall.1.2⟩

/-- The names of a place lead to it. -/
theorem Reached.follow (h : fs.Reached loc) : fs.follow loc = .ok loc := by
  have hfound := h.enter_append (fs.walk .reach (maxLinks - 1)) []
  rw [List.append_nil] at hfound
  rw [FileSystem.follow, h.holdsNul, if_neg Bool.false_ne_true, hfound]
  rfl

theorem Reached.follow_void (h : fs.Reached loc) (hdir : fs.isDirectoryAt loc = true) :
    fs.follow (loc ++ ["."]) = .ok loc := by
  have hnul : FileSystem.holdsNul ["."] = false := by decide
  rw [FileSystem.follow, holdsNul_append, h.holdsNul, hnul, h.enter_append,
    enter_void hdir (by decide)]
  rfl

/-- Where a relative path leads from a directory: up from there, and then down the names that only
the target has. -/
theorem locate_detour (hreached : fs.Reached loc) (hdir : fs.isDirectoryAt loc = true)
    (hnames : fs.Reached names)
    (hq : q.pieces = if Path.detour places names = [] then ["."] else Path.detour places names) :
    (fs.seenFrom loc hreached hdir).locate .reach q =
      fs.follow (List.dropLast^[(Path.dropShared names places).2.length] loc ++
        (Path.dropShared names places).1) := by
  have hcwd : (fs.seenFrom loc hreached hdir).currentDirectory = .ok loc := rfl
  split at hq
  · next hnil =>
    obtain ⟨hclimbs, hrest⟩ := List.append_eq_nil_iff.1 hnil
    obtain ⟨hrelative, hempty⟩ := Path.relative_of_pieces hq (by decide)
    have hpieces : q.pieces = List.replicate 0 ".." ++ ["."] := hq
    rw [locate_of_climb hpieces hrelative hempty hcwd, follow_seenFrom, hrest,
      (List.replicate_eq_nil_iff _).1 hclimbs, List.append_nil]
    exact (hreached.follow_void hdir).trans hreached.follow.symm
  · have hrest : ∀ name ∈ (Path.dropShared names places).1, Path.IsPiece name := by
      intro name hname
      obtain ⟨shared, hsplit, _⟩ := Path.dropShared_append names places
      refine hnames.isPiece name ?_
      rw [hsplit]
      exact List.mem_append_right _ hname
    obtain ⟨hrelative, hempty⟩ := relative_of_climb hrest hq
    rw [locate_of_climb hq hrelative hempty hcwd, follow_seenFrom]

theorem lexical_toPath (h : loc.all Path.isName = true) : fs.lexical loc.toPath = loc := by
  have hnames : ∀ (names start : List String), names.all Path.isName = true →
      names.foldl Location.enter start = start ++ names := by
    intro names
    induction names with
    | nil => exact fun start _ => (List.append_nil start).symm
    | cons name names ih =>
      intro start hall
      obtain ⟨hname, hall⟩ := Bool.and_eq_true_iff.1 hall
      simp only [Path.isName, Bool.and_eq_true, Bool.not_eq_true', bne_iff_ne] at hname
      have henter : Location.enter start name = start ++ [name] := by
        simp [Location.enter, hname.1.1.1, hname.1.1.2]
      rw [List.foldl_cons, henter, ih _ hall, List.append_assoc]
      rfl
  rw [lexical, if_pos loc.toPath_isAbsolute, Location.pieces_toPath h, List.foldl_cons]
  split
  · next hnil =>
    rw [hnil]
    rfl
  · exact hnames loc [] h

/-- The normal form of an absolute path enters the names of where its text says that it leads. -/
theorem normal_of_isAbsolute (h : p.isAbsolute = true) : p.normal = ⟨.root, fs.lexical p⟩ := by
  have hstart := Path.normal_start_of_isAbsolute h
  have hlocation := location_normal fs p
  rcases hnormal : p.normal with ⟨start, names⟩
  rw [hnormal] at hstart hlocation
  cases hstart
  exact congrArg (Path.Normal.mk .root) hlocation

/-- A path made absolute says that it leads to the same place. -/
theorem lexical_absolute (h : fs.absolute p = .ok q) :
    q.isAbsolute = true ∧ fs.lexical q = fs.lexical p := by
  unfold absolute at h
  split at h
  · cases h
  · split at h
    · next habsolute =>
      cases h
      exact ⟨habsolute, rfl⟩
    · next hrelative =>
      cases hcwd : fs.currentDirectory with
      | error e =>
        rw [hcwd] at h
        cases h
      | ok cwd =>
        rw [hcwd] at h
        cases h
        have hname := (reached_of_currentDirectory hcwd).isName
        refine ⟨Path.isAbsolute_join cwd.toPath_isAbsolute, ?_⟩
        rw [lexical_join fs cwd.toPath (Bool.not_eq_true _ ▸ hrelative), lexical_toPath hname,
          lexical, if_neg hrelative, workingDirectory_getD hcwd]

/-- A path that leads somewhere can be made absolute. -/
theorem exists_absolute (h : fs.locate .reach p = .ok loc) : ∃ q, fs.absolute p = .ok q := by
  obtain ⟨_, hempty, start, hstart, _⟩ := locate_eq_ok.1 h
  unfold startOf at hstart
  unfold absolute
  rw [hempty]
  split at hstart
  · next habsolute =>
    rw [habsolute]
    exact ⟨p, rfl⟩
  · next hrelative =>
    have hfalse : p.isAbsolute = false := Bool.not_eq_true _ ▸ hrelative
    rw [hfalse, hstart]
    exact ⟨start.toPath.join p, rfl⟩

theorem iterate_dropLast_append (above below : Location) :
    List.dropLast^[below.length] (above ++ below) = above := by
  rw [Location.iterate_dropLast]
  simp

/-- If the text of a directory says where it is, the way out of what only the directory has and into
what only the target has leads to the target. -/
theorem follow_detour (h : fs.Reached names) :
    fs.follow (List.dropLast^[(Path.dropShared names places).2.length] places ++
      (Path.dropShared names places).1) = .ok names := by
  obtain ⟨shared, hnames, hplaces⟩ := Path.dropShared_append names places
  have hclimb := iterate_dropLast_append shared (Path.dropShared names places).2
  rw [← hplaces] at hclimb
  rw [hclimb, ← hnames, h.follow]

end FileSystem

end ScriptBuild
