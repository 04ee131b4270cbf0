import ScriptBuild.Proofs.FileSystem.Alike

/-!
# Writing files

A file is written where its path leads, and the same path leads to it afterwards. Main statements:
`readText_of_write` says that a text that was written is read back, and `AlikeOn.write` that writing
the same keeps file systems alike.
-/

namespace ScriptBuild.FileSystem

variable {fs fs' : FileSystem}

theorem write_eq_ok {p : Path} {content : Content} :
    fs.write p content = .ok fs' ↔ ∃ loc, fs.locate .create p = .ok loc ∧
      loc.all Path.isName = true ∧ fs.isDirectoryAt loc = false ∧
      fs' = fs.put loc (.file content) := by
  unfold write
  rcases fs.locate .create p with cause | loc
  · constructor
    · intro h
      cases h
    · rintro ⟨_, h, _⟩
      cases h
  · show (if (! loc.all Path.isName) = true then Except.error OsError.nulCharacter
      else if fs.isDirectoryAt loc = true then .error .isDirectory
      else .ok (fs.put loc (.file content))) = .ok fs' ↔ _
    constructor
    · intro h
      split at h
      · cases h
      · next hname =>
        split at h
        · cases h
        · next hdir =>
          cases h
          exact ⟨loc, rfl, by simpa using hname, by simpa using hdir, rfl⟩
    · rintro ⟨found, hloc, hname, hdir, rfl⟩
      cases hloc
      simp [hname, hdir]

theorem EndsAt.not_link {purpose : Purpose} {loc : Location} (h : fs.EndsAt purpose loc)
    (target : Path) : fs.lookup? loc ≠ some (.link target) := by
  intro hlink
  rcases h with hreached | ⟨_, hnone⟩
  · cases hreached with
    | root => cases hlink
    | enter _ _ found plain =>
      rw [found] at hlink
      cases hlink
      cases plain
  · rw [hnone] at hlink
    cases hlink

section Put

variable {loc : Location} {content : Content}

theorem isDirectoryAt_put (hfile : fs.isDirectoryAt loc = false) {other : Location}
    (h : fs.isDirectoryAt other = true) (e : Entry) :
    other ≠ loc ∧ (fs.put loc e).isDirectoryAt other = true := by
  have hne : other ≠ loc := by
    rintro rfl
    rw [hfile] at h
    cases h
  refine ⟨hne, ?_⟩
  rw [isDirectoryAt, lookup?_put_of_ne hne]
  exact h

/-- No file is written on the way to the working directory. -/
theorem workingDirectory_put (hne : loc ≠ []) (hfile : fs.isDirectoryAt loc = false) :
    (fs.put loc (.file content)).workingDirectory = fs.workingDirectory := by
  unfold put
  split
  · show fs.keptDirectory loc (.file content) = _
    unfold keptDirectory
    rcases hcwd : fs.workingDirectory with _ | cwd
    · rfl
    · refine Option.filter_eq_some_iff.2 ⟨rfl, ?_⟩
      have habove : ¬ loc <+: cwd := by
        intro hloc
        have hdir := fs.settled cwd hcwd loc hloc hne
        rw [isDirectoryAt, lookup?, if_neg hne, hdir] at hfile
        cases hfile
      rw [← List.isPrefixOf_iff_prefix, Bool.not_eq_true] at habove
      rw [habove]
      exact Bool.or_true _
  · rfl

/-- The way to a location at which a file is written leads to that file afterwards. -/
theorem enter_put (hne : loc ≠ []) (hname : loc.all Path.isName = true)
    (hfile : fs.isDirectoryAt loc = false) (hlink : ∀ target, fs.lookup? loc ≠ some (.link target))
    {follow follow' : Location → List String → Except OsError Location}
    (hfollow : ∀ start names, follow start names = .ok loc → follow' start names = .ok loc)
    {start : Location} {names : List String}
    (h : fs.enter .create follow start names = .ok loc) :
    (fs.put loc (.file content)).enter .reach follow' start names = .ok loc := by
  fun_induction enter fs .create follow start names with
  | case1 => exact h
  | case2 => cases h
  | case3 start name rest hdir hvoid ih =>
    have hdir' := (isDirectoryAt_put hfile (by simpa using hdir) (.file content)).2
    rw [enter_void hdir' hvoid]
    exact ih h
  | case4 start rest hdir hvoid ih =>
    have hdir' := (isDirectoryAt_put hfile (by simpa using hdir) (.file content)).2
    simp only [enter, hdir', hvoid]
    exact ih h
  | case5 => cases h
  | case6 start name rest hdir hvoid hup _ hnone hlast =>
    have hdir' := (isDirectoryAt_put hfile (by simpa using hdir) (.file content)).2
    have hrest : rest = [] := by simpa using hlast
    cases h
    rw [enter_plain hdir' (lookup?_put hne hname (.file content)) rfl, hrest]
    rfl
  | case7 => cases h
  | case8 start name rest hdir hvoid hup _ target found =>
    have hdir' := (isDirectoryAt_put hfile (by simpa using hdir) (.file content)).2
    have hother : start ++ [name] ≠ loc := fun heq => hlink target (heq ▸ found)
    simp only [enter, hdir', hvoid, hup, lookup?_put_of_ne hother, found]
    exact hfollow _ _ h
  | case9 start name rest hdir hvoid hup _ e hplain found ih =>
    have hdir' := (isDirectoryAt_put hfile (by simpa using hdir) (.file content)).2
    by_cases heq : start ++ [name] = loc
    · have found' : (fs.put loc (.file content)).lookup? (start ++ [name]) =
          some (.file content) := by
        rw [heq]
        exact lookup?_put hne hname _
      rw [enter_plain hdir' found' rfl]
      exact ih h
    · have found' : (fs.put loc (.file content)).lookup? (start ++ [name]) = some e := by
        rw [lookup?_put_of_ne heq]
        exact found
      have plain : e.isLink = false := by
        cases e with
        | link target => exact absurd rfl (hplain target)
        | file | directory => rfl
      rw [enter_plain hdir' found' plain]
      exact ih h

theorem walk_put (hne : loc ≠ []) (hname : loc.all Path.isName = true)
    (hfile : fs.isDirectoryAt loc = false) (hlink : ∀ target, fs.lookup? loc ≠ some (.link target))
    {links : Nat} {start : Location} {names : List String}
    (h : fs.walk .create links start names = .ok loc) :
    (fs.put loc (.file content)).walk .reach links start names = .ok loc := by
  induction links generalizing start names with
  | zero => exact enter_put hne hname hfile hlink (fun _ _ h => by cases h) h
  | succ links ih => exact enter_put hne hname hfile hlink (fun _ _ h => ih h) h

end Put

/-- The path of a file that was written leads to it. -/
theorem locate_reach_of_write {p : Path} {content : Content} (h : fs.write p content = .ok fs') :
    ∃ loc, fs.locate .create p = .ok loc ∧ fs'.locate .reach p = .ok loc ∧
      fs'.lookup? loc = some (.file content) := by
  obtain ⟨loc, hloc, hname, hfile, rfl⟩ := write_eq_ok.1 h
  have hne : loc ≠ [] := by
    rintro rfl
    cases hfile
  have hlink := (endsAt_of_locate hloc).not_link
  obtain ⟨hnul, hempty, start, hstart, hwalk⟩ := locate_eq_ok.1 hloc
  have hstart' : (fs.put loc (.file content)).startOf p = .ok start := by
    rw [startOf, currentDirectory] at hstart ⊢
    rw [workingDirectory_put hne hfile]
    exact hstart
  have hloc' : (fs.put loc (.file content)).locate .reach p = .ok loc :=
    locate_eq_ok.2 ⟨hnul, hempty, start, hstart', walk_put hne hname hfile hlink hwalk⟩
  exact ⟨loc, hloc, hloc', lookup?_put hne hname _⟩

/-- A text that was written is read back. -/
theorem readText_of_write {p : Path} {source : String} (h : fs.write p (.text source) = .ok fs') :
    fs'.readText p = .ok source := by
  obtain ⟨loc, _, hloc, hfound⟩ := locate_reach_of_write h
  refine readText_eq_ok.2 ⟨loc, readFile_eq_ok.2 ⟨hloc, ?_⟩⟩
  rw [content?, hfound]

variable {kept : Path → Prop}

theorem AlikeOn.put (h : AlikeOn kept fs fs') (loc : Location) (e : Entry) :
    AlikeOn kept (fs.put loc e) (fs'.put loc e) where
  workingDirectory := by
    have hdirectory : fs'.keptDirectory loc e = fs.keptDirectory loc e := by
      rw [keptDirectory, keptDirectory, h.workingDirectory]
    unfold FileSystem.put
    split
    · exact hdirectory
    · exact h.workingDirectory
  lookup other := by
    by_cases heq : other = loc
    · subst heq
      by_cases hname : other.all Path.isName = true
      · exact .inl (by simp [lookup?, FileSystem.put, hname])
      · have hsame : ∀ fs : FileSystem, fs.put other e = fs := fun fs => dif_neg hname
        rw [hsame, hsame]
        exact h.lookup other
    · rw [lookup?_put_of_ne heq, lookup?_put_of_ne heq]
      exact h.lookup other

/-- Changing what a file holds that is not kept. -/
theorem alikeOn_put {loc : Location} {content : Content} (hloc : loc ≠ [])
    (hfile : fs.lookup? loc = some (.file content)) (hkept : ¬ kept loc.toPath)
    (changed : Content) : AlikeOn kept fs (fs.put loc (.file changed)) where
  workingDirectory := workingDirectory_put hloc (by rw [isDirectoryAt, hfile]; rfl)
  lookup other := by
    by_cases heq : other = loc
    · subst heq
      exact .inr ⟨hkept, content, changed, hfile, lookup?_put hloc (isName_of_lookup? hfile) _⟩
    · exact .inl (lookup?_put_of_ne heq _)

/-- Both attempts to change a file system fail for one reason, or they leave file systems that are
alike. -/
inductive WrittenAlike (kept : Path → Prop) {ε : Type} :
    Except ε FileSystem → Except ε FileSystem → Prop where
  | error (e : ε) : WrittenAlike kept (.error e) (.error e)
  | ok {written written' : FileSystem} (h : AlikeOn kept written written') :
      WrittenAlike kept (.ok written) (.ok written')

theorem WrittenAlike.mapError {ε δ : Type} {x x' : Except ε FileSystem}
    (h : WrittenAlike kept x x') (f : ε → δ) : WrittenAlike kept (x.mapError f) (x'.mapError f) := by
  cases h with
  | error e => exact .error (f e)
  | ok h => exact .ok h

/-- Writing the same keeps file systems alike. -/
theorem AlikeOn.write (h : AlikeOn kept fs fs') (p : Path) (content : Content) :
    WrittenAlike kept (fs.write p content) (fs'.write p content) := by
  have hloc' := h.locate_eq .create p
  unfold FileSystem.write
  rw [hloc']
  rcases fs.locate .create p with cause | loc
  · exact .error cause
  · simp only [bind, Except.bind, h.isDirectoryAt_eq]
    split
    · exact .error _
    · split
      · exact .error _
      · exact .ok (h.put loc _)

end ScriptBuild.FileSystem
