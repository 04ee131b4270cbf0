import Mathlib.Logic.Function.Iterate
import ScriptBuild.FileSystem.Place
import ScriptBuild.Proofs.Path.Normal

/-!
# Paths read without looking at links

Read as a text, a path leads to a location whatever stands there. Main statements: `location_normal`
says that its normal form leads to the same one, `Spells.locate_congr` that paths in normal form for
the same location lead to the same place, from the root or from the working directory, and
`Linkless.lexical_eq` that without links every path leads where its text says.
-/

namespace ScriptBuild

/-- The location after one more piece of a path was entered, as its text has it. -/
def Location.enter (loc : Location) (piece : String) : Location :=
  if Path.isVoid piece then loc else if piece = ".." then loc.dropLast else loc ++ [piece]

/-- The last name is taken off as often as said, as long as there is one. -/
theorem Location.iterate_dropLast (loc : Location) (levels : Nat) :
    List.dropLast^[levels] loc = loc.take (loc.length - levels) := by
  induction levels with
  | zero => simp
  | succ levels ih =>
    rw [Function.iterate_succ_apply', ih, List.dropLast_eq_take, List.take_take]
    congr 1
    simp only [List.length_take]
    omega

theorem Location.enter_of_isVoid (loc : Location) (name : String) (h : Path.isVoid name = true) :
    loc.enter name = loc :=
  if_pos h

namespace Path

/-- The location that a path in normal form starts at. -/
def Start.location (cwd : Location) : Start → Location
  | .root => []
  | .climb levels => List.dropLast^[levels] cwd

/-- The location that a normal form leads to if no link stands on its way. -/
def Normal.location (cwd : Location) (n : Normal) : Location :=
  n.start.location cwd ++ n.names

variable {cwd : Location} {n : Normal}

theorem Normal.location_leave : n.leave.location cwd = (n.location cwd).dropLast := by
  obtain ⟨start, names⟩ := n
  rcases names with _ | ⟨name, names⟩
  · cases start with
    | root => rfl
    | climb levels =>
      show List.dropLast^[levels + 1] cwd ++ [] = (List.dropLast^[levels] cwd ++ []).dropLast
      rw [List.append_nil, List.append_nil, Function.iterate_succ_apply']
  · have hleave : Normal.leave ⟨start, name :: names⟩ = ⟨start, (name :: names).dropLast⟩ := by
      cases start <;> rfl
    rw [hleave]
    exact (List.dropLast_append_of_ne_nil (List.cons_ne_nil name names)).symm

theorem Normal.location_enter (piece : String) :
    (n.enter piece).location cwd = (n.location cwd).enter piece := by
  unfold Location.enter
  rcases hvoid : isVoid piece with _ | _
  · by_cases hup : piece = ".."
    · rw [hup, enter_up, location_leave]
      rfl
    · rw [enter_name hvoid hup, if_neg Bool.false_ne_true, if_neg hup]
      exact (List.append_assoc _ _ _).symm
  · rw [if_pos rfl, Normal.enter, if_pos hvoid]

theorem Normal.location_foldl (pieces : List String) :
    (pieces.foldl Normal.enter n).location cwd = pieces.foldl Location.enter (n.location cwd) := by
  induction pieces generalizing n with
  | nil => rfl
  | cons piece pieces ih => rw [List.foldl_cons, ih, location_enter, List.foldl_cons]

end Path

namespace FileSystem

variable {fs : FileSystem} {p q : Path} {names : List String} {cwd : Location}

/-- Where a path leads if no link stands on its way: its names are entered one after the other, and
`..` leaves the last one. -/
def lexical (fs : FileSystem) (p : Path) : Location :=
  p.pieces.foldl Location.enter (if p.isAbsolute then [] else fs.workingDirectory.getD [])

/-- The normal form of a path leads to where the path does. -/
theorem location_normal (fs : FileSystem) (p : Path) :
    p.normal.location (fs.workingDirectory.getD []) = fs.lexical p := by
  have hbase : p.base.location (fs.workingDirectory.getD []) =
      if p.isAbsolute then [] else fs.workingDirectory.getD [] := by
    unfold Path.base
    split
    · rfl
    · exact List.append_nil _
  rw [Path.normal_eq, Path.Normal.location_foldl, lexical, hbase]

theorem lexical_join (fs : FileSystem) (p : Path) (hq : q.isAbsolute = false) :
    fs.lexical (p.join q) = q.pieces.foldl Location.enter (fs.lexical p) := by
  rw [← location_normal, Path.normal_join hq, Path.Normal.location_foldl, location_normal]

/-- The names hold a NUL character. -/
def holdsNul (names : List String) : Bool :=
  names.any (·.toList.contains '\x00')

/-- Follows names from the root. -/
def follow (fs : FileSystem) (names : List String) : Except OsError Location :=
  if holdsNul names then .error .nulCharacter
  else fs.enter .reach (fs.walk .reach (maxLinks - 1)) [] names

theorem contains_nul (p : Path) : p.text.toList.contains '\x00' = holdsNul p.pieces := by
  rw [Bool.eq_iff_iff, List.contains_iff_mem, Path.mem_text_iff (by decide), holdsNul,
    List.any_eq_true]
  simp only [List.contains_iff_mem]

theorem holdsNul_append (before after : List String) :
    holdsNul (before ++ after) = (holdsNul before || holdsNul after) :=
  List.any_append

/-- There is no NUL character in climbs. -/
theorem holdsNul_climbs (levels : Nat) (names : List String) :
    holdsNul (List.replicate levels ".." ++ names) = holdsNul names := by
  have hclimbs : holdsNul (List.replicate levels "..") = false := by
    rw [holdsNul, List.any_eq_false]
    intro name hname
    rw [(List.mem_replicate.1 hname).2]
    decide
  rw [holdsNul_append, hclimbs, Bool.false_or]

theorem Reached.holdsNul {loc : Location} (h : fs.Reached loc) : holdsNul loc = false := by
  rw [FileSystem.holdsNul, List.any_eq_false]
  intro name hname
  have := List.all_eq_true.1 h.isName name hname
  simp only [Path.isName, Bool.and_eq_true, Bool.not_eq_true'] at this
  rw [this.2]
  exact Bool.false_ne_true

/-- The names of an absolute path are followed from the root. -/
theorem locate_of_root (hpieces : p.pieces = "" :: names) (hne : names ≠ []) :
    fs.locate .reach p = fs.follow names := by
  have habsolute : p.isAbsolute = true := Path.isAbsolute_iff.2 ⟨names, hpieces, hne⟩
  have hempty : p.isEmpty = false := by
    rw [← Bool.not_eq_true, Path.isEmpty_iff, hpieces]
    exact fun h => hne (List.cons.inj h).2
  have hroot : fs.isDirectoryAt [] = true := rfl
  have hnul : holdsNul ("" :: names) = holdsNul names := rfl
  unfold locate follow
  rw [contains_nul, hpieces, hnul, hempty, startOf, habsolute]
  split
  · rfl
  · show fs.enter .reach (fs.walk .reach (maxLinks - 1)) [] ("" :: names) = _
    exact enter_void hroot rfl names

theorem Reached.iterate {loc : Location} (h : fs.Reached loc) (levels : Nat) :
    fs.Reached (List.dropLast^[levels] loc) := by
  induction levels with
  | zero => exact h
  | succ levels ih =>
    rw [Function.iterate_succ_apply']
    exact ih.dropLast

/-- Climbing from a directory leaves its names one after the other. -/
theorem Reached.enter_climbs {loc : Location} (h : fs.Reached loc)
    (hdir : fs.isDirectoryAt loc = true)
    (follow : Location → List String → Except OsError Location) (levels : Nat)
    (rest : List String) :
    fs.enter .reach follow loc (List.replicate levels ".." ++ rest) =
      fs.enter .reach follow (List.dropLast^[levels] loc) rest := by
  induction levels generalizing loc with
  | zero => rfl
  | succ levels ih =>
    have hup : fs.isDirectoryAt loc.dropLast = true :=
      h.isDirectoryAt_of_prefix hdir (List.dropLast_prefix loc)
    rw [List.replicate_succ, List.cons_append, Function.iterate_succ_apply, ← ih h.dropLast hup]
    have hvoid : Path.isVoid ".." = false := by decide
    rw [FileSystem.enter, hdir, hvoid]
    rfl

theorem isDirectoryAt_of_currentDirectory (h : fs.currentDirectory = .ok cwd) :
    fs.isDirectoryAt cwd = true :=
  isDirectoryAt_iff.2 (directory_of_prefix_currentDirectory h List.prefix_rfl)

theorem workingDirectory_getD (h : fs.currentDirectory = .ok cwd) :
    fs.workingDirectory.getD [] = cwd := by
  rw [currentDirectory_eq_ok.1 h]
  rfl

/-- A relative path climbs from the working directory; its names are then followed as from the
root. -/
theorem locate_of_climb {levels : Nat} (hpieces : p.pieces = List.replicate levels ".." ++ names)
    (hrelative : p.isAbsolute = false) (hempty : p.isEmpty = false)
    (hcwd : fs.currentDirectory = .ok cwd) :
    fs.locate .reach p = fs.follow (List.dropLast^[levels] cwd ++ names) := by
  have hreached := reached_of_currentDirectory hcwd
  have hclimbed := hreached.iterate levels
  unfold locate follow
  rw [contains_nul, hpieces, holdsNul_climbs, holdsNul_append, hclimbed.holdsNul, Bool.false_or,
    hempty, startOf, hrelative, hcwd]
  split
  · rfl
  · show fs.enter .reach (fs.walk .reach (maxLinks - 1)) cwd _ = _
    rw [hreached.enter_climbs (isDirectoryAt_of_currentDirectory hcwd), hclimbed.enter_append]

/-- A path starts where the file system has a directory: at the root, or at a working directory that
exists. -/
def Anchored (fs : FileSystem) (start : Path.Start) : Prop :=
  start = .root ∨ ∃ cwd, fs.currentDirectory = .ok cwd

/-- The path is in normal form, ends in a name and leads to the location if no link stands on its
way. -/
inductive Spells (fs : FileSystem) (p : Path) (loc : Location) : Prop where
  | intro {n : Path.Normal} (proper : n.Proper) (ends : n.names ≠ [])
      (pieces : p.pieces = n.start.pieces ++ n.names) (anchor : fs.Anchored n.start)
      (location : n.location (fs.workingDirectory.getD []) = loc) : Spells fs p loc

/-- A path in normal form that climbs is relative and not empty. -/
theorem relative_of_climb {levels : Nat} (hnames : ∀ name ∈ names, Path.IsPiece name)
    (hp : p.pieces = List.replicate levels ".." ++ names) :
    p.isAbsolute = false ∧ p.isEmpty = false := by
  obtain ⟨first, more, hfirst⟩ := List.exists_cons_of_ne_nil p.pieces_ne_nil
  refine Path.relative_of_pieces hfirst ?_
  have hmem : first ∈ List.replicate levels ".." ++ names := hp ▸ hfirst ▸ List.mem_cons_self
  rcases List.mem_append.1 hmem with hup | hname
  · rw [(List.mem_replicate.1 hup).2]
    decide
  · exact (hnames first hname).ne_empty

/-- With a text behind it, such a path is followed as the location with the text behind its last
name. -/
theorem Spells.locate_append {before : List String} {last : String}
    (h : fs.Spells p (before ++ [last])) (tail : String) :
    fs.locate .reach ⟨p.text ++ tail⟩ = fs.follow (before ++ Path.pieces ⟨last ++ tail⟩) := by
  obtain @⟨⟨start, names⟩, hproper, hends, hp, hanchor, hlocation⟩ := h
  obtain ⟨above, name, rfl⟩ : ∃ above name, names = above ++ [name] :=
    ⟨_, _, (List.dropLast_concat_getLast hends).symm⟩
  -- The last name of the location is that of the path; the text goes on with it.
  rw [Path.Normal.location, ← List.append_assoc] at hlocation
  obtain ⟨hbefore, hlast⟩ := List.append_inj' hlocation rfl
  obtain rfl := List.singleton_inj.1 hlast
  rw [← hbefore, List.append_assoc]
  have hpieces : Path.pieces ⟨p.text ++ tail⟩ =
      start.pieces ++ (above ++ Path.pieces ⟨name ++ tail⟩) := by
    rw [← List.append_assoc]
    exact Path.pieces_append (hp.trans (List.append_assoc _ _ _).symm) tail
  cases start with
  | root =>
    have hmore : above ++ Path.pieces ⟨name ++ tail⟩ ≠ [] :=
      fun h => Path.pieces_ne_nil _ (List.append_eq_nil_iff.1 h).2
    exact locate_of_root hpieces hmore
  | climb levels =>
    obtain ⟨cwd, hcwd⟩ := hanchor.resolve_left fun h => by cases h
    obtain ⟨hrelative, hempty⟩ := relative_of_climb hproper hp
    rw [locate_of_climb hpieces ((Path.isAbsolute_append hempty tail).trans hrelative)
      (Path.isEmpty_append hempty tail) hcwd, workingDirectory_getD hcwd]
    rfl

/-- Paths in normal form for one location, with one text behind them, are followed alike. -/
theorem Spells.locate_congr {loc : Location} (h : fs.Spells p loc) (h' : fs.Spells q loc)
    (tail : String) :
    fs.locate .reach ⟨p.text ++ tail⟩ = fs.locate .reach ⟨q.text ++ tail⟩ := by
  have hne : loc ≠ [] := by
    obtain ⟨_, hends, _, _, rfl⟩ := h
    exact List.append_ne_nil_of_right_ne_nil _ hends
  rw [← List.dropLast_concat_getLast hne] at h h'
  rw [h.locate_append, h'.locate_append]

/-- One more name below a path in normal form. -/
theorem Spells.join {loc : Location} (h : fs.Spells p loc) {name : String}
    (hname : Path.IsPiece name) : fs.Spells (p.join ⟨name⟩) (loc ++ [name]) := by
  obtain @⟨n, hproper, hends, hp, hanchor, rfl⟩ := h
  have hpieces : (p.join ⟨name⟩).pieces = n.start.pieces ++ (n.names ++ [name]) := by
    have hlast := hp
    rw [← List.dropLast_concat_getLast hends, ← List.append_assoc] at hlast
    have hne : n.names.getLast hends ≠ "" := (hproper _ (List.getLast_mem hends)).ne_empty
    rw [Path.pieces_join hlast hname.isAbsolute, if_neg hne, Path.pieces_of_not_mem hname.no_slash,
      ← hlast, hp, List.append_assoc]
  refine @Spells.intro fs _ _ ⟨n.start, n.names ++ [name]⟩ ?_ (by simp) hpieces hanchor
    (List.append_assoc _ _ _).symm
  intro other hother
  rcases List.mem_append.1 hother with hother | hother
  · exact hproper other hother
  · rw [List.mem_singleton.1 hother]
    exact hname

/-- No link stands anywhere. -/
def Linkless (fs : FileSystem) : Prop :=
  ∀ loc e, fs.lookup? loc = some e → e.isLink = false

section Linkless

variable {follow : Location → List String → Except OsError Location} {loc target : Location}

/-- Without links, entering a name is what its text says. -/
theorem Linkless.enter_cons (hfs : fs.Linkless) {name : String} {rest : List String}
    (h : fs.enter .reach follow loc (name :: rest) = .ok target) :
    fs.isDirectoryAt loc = true ∧ fs.enter .reach follow (loc.enter name) rest = .ok target ∧
      (fs.Reached loc → fs.Reached (loc.enter name)) := by
  rw [FileSystem.enter] at h
  unfold Location.enter
  split at h
  · cases h
  · next hdir =>
    have hdir' : fs.isDirectoryAt loc = true := by simpa using hdir
    split at h
    · next hvoid =>
      rw [if_pos hvoid]
      exact ⟨hdir', h, id⟩
    · next hvoid =>
      rw [if_neg hvoid]
      split at h
      · next hup =>
        rw [if_pos hup]
        exact ⟨hdir', h, Reached.dropLast⟩
      · next hup =>
        rw [if_neg hup]
        split at h
        · cases h
        · split at h
          · split at h
            · next hlast => simp at hlast
            · cases h
          · next hlink => exact absurd (hfs _ _ hlink) (by simp [Entry.isLink])
          · next found =>
            exact ⟨hdir', h, fun hreached => .enter hreached hdir' found (hfs _ _ found)⟩

/-- Without links, what exists is where the text of its path says. -/
theorem Linkless.enter_eq (hfs : fs.Linkless) {names : List String}
    (h : fs.enter .reach follow loc names = .ok target) :
    names.foldl Location.enter loc = target := by
  induction names generalizing loc with
  | nil =>
    cases h
    rfl
  | cons name names ih => exact ih (hfs.enter_cons h).2.1

/-- Without links, a path that ends in `..` leads to a directory. -/
theorem Linkless.isDirectoryAt_of_up (hfs : fs.Linkless) {above voids : List String}
    (hvoids : ∀ name ∈ voids, Path.isVoid name = true) (hloc : fs.Reached loc)
    (h : fs.enter .reach follow loc (above ++ ".." :: voids) = .ok target) :
    fs.isDirectoryAt target = true := by
  induction above generalizing loc with
  | nil =>
    obtain ⟨hdir, h, _⟩ := hfs.enter_cons h
    have htarget := hfs.enter_eq h
    rw [Path.foldl_void Location.enter_of_isVoid hvoids] at htarget
    rw [← htarget]
    exact hloc.isDirectoryAt_of_prefix hdir (List.dropLast_prefix loc)
  | cons name above ih =>
    obtain ⟨_, h, hreached⟩ := hfs.enter_cons h
    exact ih (hreached hloc) h

theorem Linkless.lexical_eq (hfs : fs.Linkless) (h : fs.locate .reach p = .ok target) :
    fs.lexical p = target := by
  obtain ⟨_, _, start, hstart, hwalk⟩ := locate_eq_ok.1 h
  rw [lexical, ← hfs.enter_eq hwalk]
  unfold startOf at hstart
  split at hstart
  · next habsolute =>
    cases hstart
    rw [if_pos habsolute]
  · next hrelative => rw [if_neg hrelative, workingDirectory_getD hstart]

/-- Without links, the directory of a file is where the text of its path says. -/
theorem Linkless.lexical_directory (hfs : fs.Linkless) (h : fs.locate .reach p = .ok target)
    (hfile : (fs.content? target).isSome = true) :
    fs.lexical p.directory = target.dropLast := by
  have hplain : fs.isDirectoryAt target ≠ true := by
    intro hdir
    rw [content?, isDirectoryAt_iff.1 hdir] at hfile
    cases hfile
  obtain ⟨_, _, start, hstart, hwalk⟩ := locate_eq_ok.1 h
  have hreached := reached_of_startOf hstart
  rcases p.exists_splits with hnames | ⟨above, piece, voids, hp⟩
  · obtain ⟨first, more, hfirst⟩ := List.exists_cons_of_ne_nil p.pieces_ne_nil
    have hstays := hfs.enter_eq hwalk
    rw [Path.foldl_void Location.enter_of_isVoid hnames] at hstays
    rw [hfirst] at hwalk
    exact absurd (hstays ▸ (hfs.enter_cons hwalk).1) hplain
  · have htarget := hfs.lexical_eq h
    rw [lexical, hp.pieces_eq, List.foldl_append, List.foldl_cons,
      Path.foldl_void Location.enter_of_isVoid hp.void] at htarget
    rw [lexical, hp.isAbsolute_eq, hp.directory_eq _ Location.enter_of_isVoid]
    rw [hp.pieces_eq] at hwalk
    by_cases hup : piece = ".."
    · rw [hup] at hwalk
      exact absurd (hfs.isDirectoryAt_of_up hp.void hreached hwalk) hplain
    · rw [Location.enter, hp.not_void, if_neg Bool.false_ne_true, if_neg hup] at htarget
      rw [← htarget, List.dropLast_concat]

end Linkless

end FileSystem

end ScriptBuild
