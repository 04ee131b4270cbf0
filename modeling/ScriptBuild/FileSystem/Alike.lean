import ScriptBuild.FileSystem.Build

/-!
# File systems that differ in what files hold

Two file systems with the same directories, links and regular files, in which files that are not kept
may hold different things. Main statement: every path leads to the same place in both, as
`AlikeOn.locate_eq` says.
-/

namespace ScriptBuild.FileSystem

/-- The same stands at each location of the file systems, or a regular file in both that is not
kept. -/
structure AlikeOn (kept : Path → Prop) (fs fs' : FileSystem) : Prop where
  workingDirectory : fs'.workingDirectory = fs.workingDirectory
  lookup : ∀ loc : Location, fs'.lookup? loc = fs.lookup? loc ∨
    ¬ kept loc.toPath ∧ ∃ c c', fs.lookup? loc = some (.file c) ∧ fs'.lookup? loc = some (.file c')

namespace AlikeOn

variable {kept kept' : Path → Prop} {fs fs' : FileSystem}

theorem symm (h : AlikeOn kept fs fs') : AlikeOn kept fs' fs where
  workingDirectory := h.workingDirectory.symm
  lookup loc := by
    rcases h.lookup loc with heq | ⟨hnot, c, c', hfile, hfile'⟩
    · exact .inl heq.symm
    · exact .inr ⟨hnot, c', c, hfile', hfile⟩

/-- File systems that are alike are so if less is kept. -/
theorem mono (h : AlikeOn kept fs fs') (hkept : ∀ p, kept' p → kept p) : AlikeOn kept' fs fs' where
  workingDirectory := h.workingDirectory
  lookup loc := by
    rcases h.lookup loc with heq | ⟨hnot, hfiles⟩
    · exact .inl heq
    · exact .inr ⟨fun hp => hnot (hkept _ hp), hfiles⟩

theorem isDirectoryAt_eq (h : AlikeOn kept fs fs') (loc : Location) :
    fs'.isDirectoryAt loc = fs.isDirectoryAt loc := by
  unfold isDirectoryAt
  rcases h.lookup loc with heq | ⟨_, c, c', hfile, hfile'⟩
  · rw [heq]
  · rw [hfile, hfile']
    rfl

/-- What a file holds does not matter on the way that names describe. -/
theorem enter_eq (h : AlikeOn kept fs fs') (purpose : Purpose)
    (follow : Location → List String → Except OsError Location) (loc : Location)
    (names : List String) :
    fs'.enter purpose follow loc names = fs.enter purpose follow loc names := by
  induction names generalizing loc with
  | nil => rfl
  | cons name rest ih =>
    rcases h.lookup (loc ++ [name]) with heq | ⟨_, c, c', hfile, hfile'⟩
    · simp only [enter, h.isDirectoryAt_eq, ih, heq]
    · simp only [enter, h.isDirectoryAt_eq, ih, hfile, hfile']

theorem walk_eq (h : AlikeOn kept fs fs') (purpose : Purpose) (links : Nat) (loc : Location)
    (names : List String) : fs'.walk purpose links loc names = fs.walk purpose links loc names := by
  induction links generalizing loc names with
  | zero => exact h.enter_eq purpose _ loc names
  | succ links ih =>
    have hfollow : fs'.walk purpose links = fs.walk purpose links :=
      funext fun loc => funext fun names => ih loc names
    rw [walk, walk, hfollow]
    exact h.enter_eq purpose _ loc names

theorem currentDirectory_eq (h : AlikeOn kept fs fs') :
    fs'.currentDirectory = fs.currentDirectory := by
  rw [currentDirectory, currentDirectory, h.workingDirectory]

/-- A path leads to the same place. -/
theorem locate_eq (h : AlikeOn kept fs fs') (purpose : Purpose) (p : Path) :
    fs'.locate purpose p = fs.locate purpose p := by
  have hwalk : fs'.walk purpose maxLinks = fs.walk purpose maxLinks :=
    funext fun loc => funext fun names => h.walk_eq purpose maxLinks loc names
  rw [locate, locate, startOf, startOf, h.currentDirectory_eq, hwalk]

theorem canonicalize_eq (h : AlikeOn kept fs fs') (p : Path) :
    fs'.canonicalize p = fs.canonicalize p := by
  rw [canonicalize, canonicalize, h.locate_eq]

theorem absolute_eq (h : AlikeOn kept fs fs') (p : Path) : fs'.absolute p = fs.absolute p := by
  rw [absolute, absolute, h.currentDirectory_eq]

/-- What a path names itself stands at the same location. -/
theorem entryLocation?_eq (h : AlikeOn kept fs fs') (p : Path) :
    fs'.entryLocation? p = fs.entryLocation? p := by
  have hwalk : fs'.walk .reach maxLinks = fs.walk .reach maxLinks :=
    funext fun loc => funext fun names => h.walk_eq .reach maxLinks loc names
  rw [entryLocation?, entryLocation?, startOf, startOf, h.currentDirectory_eq, hwalk]

end AlikeOn

end ScriptBuild.FileSystem
