import ScriptBuild.Proofs.FileSystem.Write

/-!
# Ways that writing keeps

Writing a file changes what stands at one location, and neither makes nor removes a directory or a
link. So whatever path led to a place where a file can be written leads there afterwards. Main
statements: `SameWays.locate_create` and `sameWays_of_write`.
-/

namespace ScriptBuild.FileSystem

variable {fs fs' : FileSystem}

/-- Nothing stands at the location, or a regular file. -/
def Loose (fs : FileSystem) (loc : Location) : Prop :=
  ∀ e, fs.lookup? loc = some e → ∃ content, e = .file content

/-- The same directories and links stand in both file systems. Regular files may come and go. -/
structure SameWays (fs fs' : FileSystem) : Prop where
  workingDirectory : fs'.workingDirectory = fs.workingDirectory
  lookup : ∀ loc, fs'.lookup? loc = fs.lookup? loc ∨ fs.Loose loc ∧ fs'.Loose loc

theorem SameWays.refl (fs : FileSystem) : fs.SameWays fs :=
  ⟨rfl, fun _ => .inl rfl⟩

theorem SameWays.symm (h : fs.SameWays fs') : fs'.SameWays fs :=
  ⟨h.workingDirectory.symm, fun loc => (h.lookup loc).imp Eq.symm And.symm⟩

theorem SameWays.trans {fs'' : FileSystem} (h : fs.SameWays fs') (h' : fs'.SameWays fs'') :
    fs.SameWays fs'' := by
  refine ⟨h'.workingDirectory.trans h.workingDirectory, fun loc => ?_⟩
  rcases h.lookup loc with heq | ⟨loose, loose'⟩ <;>
    rcases h'.lookup loc with heq' | ⟨loose₁, loose₂⟩
  · exact .inl (heq'.trans heq)
  · exact .inr ⟨fun e he => loose₁ e (heq.trans he), loose₂⟩
  · exact .inr ⟨loose, fun e he => loose' e (heq'.symm.trans he)⟩
  · exact .inr ⟨loose, loose₂⟩

theorem Loose.isDirectoryAt {loc : Location} (h : fs.Loose loc) : fs.isDirectoryAt loc = false := by
  refine beq_eq_false_iff_ne.2 fun hdir => ?_
  obtain ⟨_, hcontent⟩ := h _ hdir
  cases hcontent

theorem SameWays.isDirectoryAt_eq (h : fs.SameWays fs') (loc : Location) :
    fs'.isDirectoryAt loc = fs.isDirectoryAt loc := by
  rcases h.lookup loc with heq | ⟨loose, loose'⟩
  · rw [isDirectoryAt, heq, isDirectoryAt]
  · rw [loose.isDirectoryAt, loose'.isDirectoryAt]

section Enter

variable {follow follow' : Location → List String → Except OsError Location} {start loc : Location}
  {name : String} {names : List String}

/-- No way leads on from where nothing stands, or a file. -/
theorem Loose.enter (loose : fs.Loose start) {purpose : Purpose}
    (h : fs.enter purpose follow start names = .ok loc) : names = [] ∧ loc = start := by
  cases names with
  | nil =>
    cases h
    exact ⟨rfl, rfl⟩
  | cons name rest =>
    rw [FileSystem.enter, loose.isDirectoryAt] at h
    cases h

/-- A file can be written where nothing stands, or a file. -/
theorem Loose.enter_create (hdir : fs.isDirectoryAt start = true) (hvoid : ¬ Path.isVoid name = true)
    (hup : name ≠ "..") (loose : fs.Loose (start ++ [name])) :
    fs.enter .create follow start [name] = .ok (start ++ [name]) := by
  cases hfound : fs.lookup? (start ++ [name]) with
  | none => simp [FileSystem.enter, hdir, hvoid, hup, hfound, onlySlashes]
  | some e =>
    obtain ⟨content, rfl⟩ := loose e hfound
    simp [FileSystem.enter, hdir, hvoid, hup, hfound, onlySlashes]

theorem SameWays.enter_create (h : fs.SameWays fs')
    (hfollow : ∀ start names, follow start names = .ok loc → follow' start names = .ok loc)
    (hloc : fs.enter .create follow start names = .ok loc) :
    fs'.enter .create follow' start names = .ok loc := by
  fun_induction FileSystem.enter fs .create follow start names with
  | case1 => exact hloc
  | case2 => cases hloc
  | case3 start name rest hdir hvoid ih =>
    have hdir' := (h.isDirectoryAt_eq start).trans (by simpa using hdir)
    rw [enter_void hdir' hvoid]
    exact ih hloc
  | case4 start rest hdir hvoid ih =>
    have hdir' := (h.isDirectoryAt_eq start).trans (by simpa using hdir)
    simp only [FileSystem.enter, hdir', hvoid]
    exact ih hloc
  | case5 => cases hloc
  | case6 start name rest hdir hvoid hup hslashes hnone hlast =>
    have hdir' := (h.isDirectoryAt_eq start).trans (by simpa using hdir)
    have loose' : fs'.Loose (start ++ [name]) := by
      rcases h.lookup (start ++ [name]) with heq | ⟨_, loose'⟩
      · intro e he
        rw [heq, hnone] at he
        cases he
      · exact loose'
    have hrest : rest = [] := by simpa using hlast
    cases hloc
    rw [hrest]
    exact loose'.enter_create hdir' hvoid hup
  | case7 => cases hloc
  | case8 start name rest hdir hvoid hup hslashes target found =>
    have hdir' := (h.isDirectoryAt_eq start).trans (by simpa using hdir)
    have hslashes' : onlySlashes rest = false := by simpa using hslashes
    rcases h.lookup (start ++ [name]) with heq | ⟨loose, _⟩
    · simp only [FileSystem.enter, hdir', hvoid, hup, heq, found, hslashes', Bool.and_false]
      exact hfollow _ _ hloc
    · obtain ⟨_, hcontent⟩ := loose _ found
      cases hcontent
  | case9 start name rest hdir hvoid hup hslashes e hplain found ih =>
    have hdir' := (h.isDirectoryAt_eq start).trans (by simpa using hdir)
    have hslashes' : onlySlashes rest = false := by simpa using hslashes
    rcases h.lookup (start ++ [name]) with heq | ⟨loose, loose'⟩
    · simp only [FileSystem.enter, hdir', hvoid, hup, heq, found, hslashes', Bool.and_false]
      exact ih hloc
    · obtain ⟨rfl, rfl⟩ := loose.enter hloc
      exact loose'.enter_create hdir' hvoid hup

theorem SameWays.walk_create (h : fs.SameWays fs') {links : Nat}
    (hloc : fs.walk .create links start names = .ok loc) :
    fs'.walk .create links start names = .ok loc := by
  induction links generalizing start names with
  | zero => exact h.enter_create (fun _ _ hloc => by cases hloc) hloc
  | succ links ih => exact h.enter_create (fun _ _ hloc => ih hloc) hloc

end Enter

theorem SameWays.startOf_eq (h : fs.SameWays fs') (p : Path) : fs'.startOf p = fs.startOf p := by
  rw [startOf, startOf, currentDirectory, currentDirectory, h.workingDirectory]

theorem SameWays.locate_create (h : fs.SameWays fs') {p : Path} {loc : Location} :
    fs'.locate .create p = .ok loc ↔ fs.locate .create p = .ok loc := by
  have keeps : ∀ {fs fs' : FileSystem}, fs.SameWays fs' → fs.locate .create p = .ok loc →
      fs'.locate .create p = .ok loc := by
    intro fs fs' h hloc
    obtain ⟨hnul, hempty, start, hstart, hwalk⟩ := locate_eq_ok.1 hloc
    have hstart' := (h.startOf_eq p).trans hstart
    exact locate_eq_ok.2 ⟨hnul, hempty, start, hstart', h.walk_create hwalk⟩
  exact ⟨keeps h.symm, keeps h⟩

theorem SameWays.absolute_eq (h : fs.SameWays fs') (p : Path) : fs'.absolute p = fs.absolute p := by
  unfold absolute currentDirectory
  rw [h.workingDirectory]

/-- Whether a file can be written hangs on the ways only. -/
theorem SameWays.exists_write (h : fs.SameWays fs') (p : Path) (content : Content) :
    (∃ written, fs'.write p content = .ok written) ↔ ∃ written, fs.write p content = .ok written := by
  simp only [write_eq_ok, h.locate_create, h.isDirectoryAt_eq]
  constructor <;> rintro ⟨_, loc, hloc, hname, hfile, _⟩ <;>
    exact ⟨_, loc, hloc, hname, hfile, rfl⟩

/-- Writing a file keeps the ways. -/
theorem sameWays_of_write {p : Path} {content : Content} (h : fs.write p content = .ok fs') :
    fs.SameWays fs' := by
  obtain ⟨loc, hloc, hname, hfile, rfl⟩ := write_eq_ok.1 h
  have hne : loc ≠ [] := by
    rintro rfl
    cases hfile
  refine ⟨workingDirectory_put hne hfile, fun other => ?_⟩
  by_cases heq : other = loc
  · subst heq
    refine .inr ⟨fun e he => ?_, fun e he => ?_⟩
    · cases e with
      | file content => exact ⟨content, rfl⟩
      | link target => exact absurd he ((endsAt_of_locate hloc).not_link target)
      | directory =>
        rw [isDirectoryAt, he] at hfile
        cases hfile
    · rw [lookup?_put hne hname] at he
      exact ⟨content, (Option.some.inj he).symm⟩
  · exact .inl (lookup?_put_of_ne heq _)

/-- Writing a file changes no other place. -/
theorem locate_of_write {p : Path} {content : Content} (h : fs.write p content = .ok fs')
    {loc : Location} (hchanged : fs'.lookup? loc ≠ fs.lookup? loc) :
    fs.locate .create p = .ok loc := by
  obtain ⟨place, hplace, _, _, rfl⟩ := write_eq_ok.1 h
  by_cases heq : loc = place
  · rw [heq]
    exact hplace
  · exact absurd (lookup?_put_of_ne heq _) hchanged

end ScriptBuild.FileSystem
