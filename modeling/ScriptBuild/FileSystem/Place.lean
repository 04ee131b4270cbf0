import ScriptBuild.FileSystem.Basic

/-!
# Places

A place is a location that is reached by its own names: each of them is entered from a directory and
none of them is a link. Main statements: `reached_of_locate` says that following a path to something
that exists ends at a place, and `locate_toPath` that the path of a place leads back to it, so a
canonical path stands for itself.
-/

namespace ScriptBuild

/-- The entry is a symbolic link. -/
def Entry.isLink : Entry → Bool
  | .link _ => true
  | _ => false

namespace FileSystem

variable {fs : FileSystem}

/-- The location is reached by its own names. -/
inductive Reached (fs : FileSystem) : Location → Prop where
  | root : Reached fs []
  | enter {loc : Location} {name : String} {e : Entry} (above : Reached fs loc)
      (directory : fs.isDirectoryAt loc = true) (found : fs.lookup? (loc ++ [name]) = some e)
      (plain : e.isLink = false) : Reached fs (loc ++ [name])

theorem Reached.dropLast {loc : Location} (h : fs.Reached loc) : fs.Reached loc.dropLast := by
  cases h with
  | root => exact .root
  | enter above => rwa [List.dropLast_concat]

theorem isName_of_lookup? {loc : Location} {e : Entry} (h : fs.lookup? loc = some e) :
    loc.all Path.isName = true := by
  unfold lookup? at h
  split at h
  · next hnil => rw [hnil]; rfl
  · obtain ⟨before, after, heq, _⟩ := List.lookup_eq_some_iff.1 h
    exact fs.named (loc, e) (heq ▸ List.mem_append_right _ List.mem_cons_self)

theorem Reached.isName {loc : Location} (h : fs.Reached loc) : loc.all Path.isName = true := by
  cases h with
  | root => rfl
  | enter _ _ found _ => exact isName_of_lookup? found

theorem isDirectoryAt_iff {loc : Location} :
    fs.isDirectoryAt loc = true ↔ fs.lookup? loc = some .directory := by
  simp [isDirectoryAt]

/-- The way to a directory that is a place leads through directories only. -/
theorem Reached.isDirectoryAt_of_prefix {loc above : Location} (h : fs.Reached loc)
    (hdir : fs.isDirectoryAt loc = true) (habove : above <+: loc) :
    fs.isDirectoryAt above = true := by
  induction h with
  | root => rwa [List.prefix_nil.1 habove]
  | enter _ directory _ _ ih =>
    rcases List.prefix_concat_iff.1 habove with rfl | hpre
    · exact hdir
    · exact ih directory hpre

theorem currentDirectory_eq_ok {cwd : Location} :
    fs.currentDirectory = .ok cwd ↔ fs.workingDirectory = some cwd := by
  unfold currentDirectory
  rcases fs.workingDirectory with _ | loc
  · constructor <;> intro h <;> cases h
  · constructor <;> intro h <;> cases h <;> rfl

/-- The way to the working directory leads through directories, and ends in one. -/
theorem directory_of_prefix_currentDirectory {cwd loc : Location}
    (h : fs.currentDirectory = .ok cwd) (hloc : loc <+: cwd) :
    fs.lookup? loc = some .directory := by
  unfold lookup?
  split
  · rfl
  · next hne => exact fs.settled cwd (currentDirectory_eq_ok.1 h) loc hloc hne

/-- The working directory is a place. -/
theorem reached_of_currentDirectory {cwd : Location} (h : fs.currentDirectory = .ok cwd) :
    fs.Reached cwd := by
  -- Names below a place on the way are entered one after the other.
  have go : ∀ below above, above ++ below = cwd → fs.Reached above → fs.Reached (above ++ below) := by
    intro below
    induction below with
    | nil => intro above _ hreached; rwa [List.append_nil]
    | cons name below ih =>
      intro above heq hreached
      have hsplit : above ++ [name] ++ below = cwd := by rw [List.append_assoc]; exact heq
      have hdir := directory_of_prefix_currentDirectory h ⟨_, heq⟩
      have hnext := directory_of_prefix_currentDirectory h ⟨_, hsplit⟩
      have := ih (above ++ [name]) hsplit (.enter hreached (isDirectoryAt_iff.2 hdir) hnext rfl)
      rwa [List.append_assoc] at this
  exact go cwd [] rfl .root

/-- Where following a path may end: at a place or, when a file is to be written, where nothing
stands. -/
def EndsAt (fs : FileSystem) (purpose : Purpose) (loc : Location) : Prop :=
  fs.Reached loc ∨ purpose = .create ∧ fs.lookup? loc = none

theorem endsAt_of_enter {purpose : Purpose}
    {follow : Location → List String → Except OsError Location}
    (hfollow : ∀ start names loc, fs.Reached start → follow start names = .ok loc →
      fs.EndsAt purpose loc)
    {start : Location} {names : List String} {loc : Location} (hstart : fs.Reached start)
    (h : fs.enter purpose follow start names = .ok loc) : fs.EndsAt purpose loc := by
  fun_induction enter fs purpose follow start names with
  | case1 => cases h; exact .inl hstart
  | case2 => cases h
  | case3 _ _ _ _ _ ih => exact ih hstart h
  | case4 _ _ _ _ ih => exact ih hstart.dropLast h
  | case5 => cases h
  | case6 _ _ _ _ _ _ _ hnone hlast =>
    cases h
    simp only [Bool.and_eq_true, decide_eq_true_eq] at hlast
    exact .inr ⟨hlast.1, hnone⟩
  | case7 => cases h
  | case8 =>
    refine hfollow _ _ _ ?_ h
    split
    · exact .root
    · exact hstart
  | case9 loc _ _ hdir _ _ _ e hlink hfound ih =>
    refine ih (.enter hstart (by simpa using hdir) hfound ?_) h
    cases e with
    | link target => exact absurd rfl (hlink target)
    | file | directory => rfl

theorem endsAt_of_walk {purpose : Purpose} {links : Nat} {start : Location} {names : List String}
    {loc : Location} (hstart : fs.Reached start)
    (h : fs.walk purpose links start names = .ok loc) : fs.EndsAt purpose loc := by
  induction links generalizing start names loc with
  | zero => exact endsAt_of_enter (fun _ _ _ _ h => by cases h) hstart h
  | succ links ih => exact endsAt_of_enter (fun _ _ _ hs h => ih hs h) hstart h

/-- The names of a path are entered one after the other from a place. -/
theorem locate_eq_ok {purpose : Purpose} {p : Path} {loc : Location} :
    fs.locate purpose p = .ok loc ↔
      p.text.toList.contains '\x00' = false ∧ p.isEmpty = false ∧
        ∃ start, fs.startOf p = .ok start ∧ fs.walk purpose maxLinks start p.pieces = .ok loc := by
  unfold locate
  cases p.text.toList.contains '\x00' with
  | true => simp
  | false =>
    cases p.isEmpty with
    | true => simp
    | false =>
      rcases fs.startOf p with cause | start
      · simp [Except.bind]
      · simp [Except.bind]

theorem reached_of_startOf {p : Path} {start : Location} (h : fs.startOf p = .ok start) :
    fs.Reached start := by
  unfold startOf at h
  split at h
  · cases h
    exact .root
  · exact reached_of_currentDirectory h

theorem endsAt_of_locate {purpose : Purpose} {p : Path} {loc : Location}
    (h : fs.locate purpose p = .ok loc) : fs.EndsAt purpose loc := by
  obtain ⟨_, _, start, hstart, hwalk⟩ := locate_eq_ok.1 h
  exact endsAt_of_walk (reached_of_startOf hstart) hwalk

/-- Following a path to something that exists ends at a place. -/
theorem reached_of_locate {p : Path} {loc : Location} (h : fs.locate .reach p = .ok loc) :
    fs.Reached loc := by
  rcases endsAt_of_locate h with hreached | ⟨hpurpose, _⟩
  · exact hreached
  · cases hpurpose

theorem enter_void {purpose : Purpose} {follow : Location → List String → Except OsError Location}
    {loc : Location} {name : String} (hdir : fs.isDirectoryAt loc = true)
    (hvoid : Path.isVoid name = true) (rest : List String) :
    fs.enter purpose follow loc (name :: rest) = fs.enter purpose follow loc rest := by
  simp [enter, hdir, hvoid]

theorem enter_plain {follow : Location → List String → Except OsError Location}
    {loc : Location} {name : String} {e : Entry} (hdir : fs.isDirectoryAt loc = true)
    (found : fs.lookup? (loc ++ [name]) = some e) (plain : e.isLink = false)
    (rest : List String) :
    fs.enter .reach follow loc (name :: rest) = fs.enter .reach follow (loc ++ [name]) rest := by
  have hname : Path.isName name = true := by
    have := isName_of_lookup? found
    simp only [List.all_append, Bool.and_eq_true] at this
    simpa using this.2
  simp only [Path.isName, Bool.and_eq_true, Bool.not_eq_true', bne_iff_ne] at hname
  cases e with
  | link target => cases plain
  | file | directory => simp [enter, hdir, hname.1.1.1, hname.1.1.2, found]

/-- The names of a place lead to it from the root. -/
theorem Reached.enter_append {loc : Location} (h : fs.Reached loc)
    (follow : Location → List String → Except OsError Location) (below : List String) :
    fs.enter .reach follow [] (loc ++ below) = fs.enter .reach follow loc below := by
  induction h generalizing below with
  | root => rfl
  | enter above directory found plain ih =>
    rw [List.append_assoc, ih, List.singleton_append]
    exact enter_plain directory found plain below

end FileSystem

namespace Location

theorem toPath_isAbsolute (loc : Location) : loc.toPath.isAbsolute = true := by
  simp [toPath, Path.isAbsolute]

theorem pieces_toPath {loc : Location} (h : loc.all Path.isName = true) :
    loc.toPath.pieces = "" :: if loc = [] then [""] else loc := by
  have hslash : ∀ cs ∈ loc.map String.toList, '/' ∉ cs := by
    intro cs hcs
    obtain ⟨name, hname, rfl⟩ := List.mem_map.1 hcs
    have := List.all_eq_true.1 h name hname
    simp only [Path.isName, Bool.and_eq_true, Bool.not_eq_true', List.contains_eq_mem,
      decide_eq_false_iff_not] at this
    exact this.1.2
  have htext : loc.toPath.text.toList = [] ++ '/' :: ['/'].intercalate (loc.map String.toList) := by
    simp [toPath]
  unfold Path.pieces Text.pieces
  rw [htext, List.splitOn_append_cons_self_of_not_mem List.not_mem_nil]
  split
  · next hnil => subst hnil; rfl
  · next hne =>
    rw [List.splitOn_intercalate '/' hslash (by simpa using hne)]
    simp

/-- Places with different names have different paths. -/
theorem toPath_inj {a b : Location} (ha : a.all Path.isName = true) (hb : b.all Path.isName = true)
    (h : a.toPath = b.toPath) : a = b := by
  have hpieces := pieces_toPath ha
  rw [h, pieces_toPath hb] at hpieces
  have hempty : ∀ loc : Location, loc.all Path.isName = true → [""] ≠ loc := by
    rintro loc hloc rfl
    exact absurd hloc (by decide)
  have hnames := List.tail_eq_of_cons_eq hpieces
  split at hnames <;> split at hnames
  · next hb' ha' => rw [hb', ha']
  · exact absurd hnames (hempty a ha)
  · exact absurd hnames.symm (hempty b hb)
  · exact hnames.symm

end Location

namespace FileSystem

variable {fs : FileSystem}

theorem Reached.not_nul {loc : Location} (h : fs.Reached loc) :
    loc.toPath.text.toList.contains '\x00' = false := by
  have hnames : ∀ name ∈ loc, '\x00' ∉ name.toList := by
    intro name hname
    have := List.all_eq_true.1 h.isName name hname
    simp only [Path.isName, Bool.and_eq_true, Bool.not_eq_true', List.contains_eq_mem,
      decide_eq_false_iff_not] at this
    exact this.2
  have hjoined : ∀ names : List String, (∀ name ∈ names, '\x00' ∉ name.toList) →
      '\x00' ∉ ("/".intercalate names).toList := by
    intro names hnames
    induction names with
    | nil => simp
    | cons name names ih =>
      have hrest := ih fun n hn => hnames n (List.mem_cons_of_mem _ hn)
      have hfirst := hnames name List.mem_cons_self
      cases names with
      | nil => simpa using hfirst
      | cons other names =>
        rw [String.intercalate_cons_cons, String.toList_append, String.toList_append]
        simp only [List.mem_append, not_or]
        exact ⟨⟨hfirst, by decide⟩, hrest⟩
  simpa [Location.toPath] using hjoined loc hnames

/-- The path of a place leads to it. -/
theorem locate_toPath {loc : Location} (h : fs.Reached loc) :
    fs.locate .reach loc.toPath = .ok loc := by
  have hempty : loc.toPath.isEmpty = false := by
    simp [Path.isEmpty, Location.toPath]
  have hroot : fs.isDirectoryAt [] = true := rfl
  unfold locate
  rw [h.not_nul, hempty, startOf, Location.toPath_isAbsolute, Location.pieces_toPath h.isName]
  show fs.enter .reach (fs.walk .reach 39) [] _ = _
  rw [enter_void hroot rfl]
  split
  · next hnil => rw [hnil, enter_void hroot rfl]; rfl
  · have := h.enter_append (fs.walk .reach 39) []
    rwa [List.append_nil] at this

theorem readFile_eq_ok {p : Path} {loc : Location} {source : String} :
    fs.readFile p = .ok (loc, source) ↔
      fs.locate .reach p = .ok loc ∧ fs.content? loc = some (.text source) := by
  unfold readFile
  rcases fs.locate .reach p with cause | found
  · constructor
    · intro h
      cases h
    · rintro ⟨h, _⟩
      cases h
  · dsimp only [bind, Except.bind]
    constructor
    · intro h
      split at h
      · next htext => cases h; exact ⟨rfl, htext⟩
      · cases h
      · cases h
    · rintro ⟨hloc, htext⟩
      cases hloc
      rw [htext]

/-- The path is the canonical one of a file that holds a text. -/
def IsText (fs : FileSystem) (p : Path) : Prop :=
  ∃ loc source, fs.readFile p = .ok (loc, source) ∧ loc.toPath = p

/-- A text is also read by the canonical path of its file. -/
theorem isText_of_readFile {p : Path} {loc : Location} {source : String}
    (h : fs.readFile p = .ok (loc, source)) : fs.IsText loc.toPath := by
  obtain ⟨hloc, htext⟩ := readFile_eq_ok.1 h
  exact ⟨loc, source, readFile_eq_ok.2 ⟨locate_toPath (reached_of_locate hloc), htext⟩, rfl⟩

theorem IsText.canonical {p : Path} (h : fs.IsText p) : fs.canonicalize p = .ok p := by
  obtain ⟨loc, source, hread, hpath⟩ := h
  rw [canonicalize, (readFile_eq_ok.1 hread).1]
  exact congrArg Except.ok hpath

theorem readText_eq_ok {p : Path} {source : String} :
    fs.readText p = .ok source ↔ ∃ loc, fs.readFile p = .ok (loc, source) := by
  unfold readText
  rcases fs.readFile p with cause | ⟨loc, text⟩
  · constructor
    · intro h
      cases h
    · rintro ⟨_, h⟩
      cases h
  · constructor
    · intro h
      cases h
      exact ⟨loc, rfl⟩
    · rintro ⟨_, h⟩
      cases h
      rfl

theorem Reached.isText_of_readText {loc : Location} {source : String} (h : fs.Reached loc)
    (hread : fs.readText loc.toPath = .ok source) : fs.IsText loc.toPath := by
  obtain ⟨found, hfile⟩ := readText_eq_ok.1 hread
  obtain ⟨hloc, _⟩ := readFile_eq_ok.1 hfile
  rw [locate_toPath h] at hloc
  cases hloc
  exact ⟨loc, source, hfile, rfl⟩

theorem canonicalize_eq_ok {p q : Path} :
    fs.canonicalize p = .ok q ↔ ∃ loc, fs.locate .reach p = .ok loc ∧ loc.toPath = q := by
  unfold canonicalize
  rcases fs.locate .reach p with cause | loc
  · constructor
    · intro h
      cases h
    · rintro ⟨_, h, _⟩
      cases h
  · constructor
    · intro h
      exact ⟨loc, rfl, Except.ok.inj h⟩
    · rintro ⟨_, h, rfl⟩
      cases h
      rfl

/-- A canonical path stands for itself. -/
theorem canonicalize_canonical {p q : Path} (h : fs.canonicalize p = .ok q) :
    fs.canonicalize q = .ok q := by
  obtain ⟨loc, hloc, rfl⟩ := canonicalize_eq_ok.1 h
  exact canonicalize_eq_ok.2 ⟨loc, locate_toPath (reached_of_locate hloc), rfl⟩

theorem probe_eq_some {p q : Path} :
    fs.probe p = some q ↔
      ∃ loc, fs.locate .reach p = .ok loc ∧ (fs.content? loc).isSome = true ∧ loc.toPath = q := by
  unfold probe
  rcases hloc : fs.locate .reach p with cause | loc
  · simp
  · simp

/-- What is found at a path is given by its canonical path. -/
theorem canonicalize_of_probe {p q : Path} (h : fs.probe p = some q) :
    fs.canonicalize q = .ok q := by
  obtain ⟨loc, hloc, _, rfl⟩ := probe_eq_some.1 h
  rw [canonicalize, locate_toPath (reached_of_locate hloc)]
  rfl

/-- A file is read by its canonical path where it stands. -/
theorem toPath_of_readFile {p : Path} {loc : Location} {source : String}
    (hcanonical : fs.canonicalize p = .ok p) (h : fs.readFile p = .ok (loc, source)) :
    loc.toPath = p := by
  rw [canonicalize, (readFile_eq_ok.1 h).1] at hcanonical
  exact Except.ok.inj hcanonical

end FileSystem

end ScriptBuild
