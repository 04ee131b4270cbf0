import ScriptBuild.FileSystem.Temporary
import ScriptBuild.Proofs.FileSystem.Ways

/-!
# Files that come and go

A file is made where nothing stood, written again and removed, and then everything stands as before.
Main statements: `Vacant.write` and `Vacant.write_again` say that the file can be written, and
`Vacant.restored` that removing it leaves nothing of it.
-/

namespace ScriptBuild.FileSystem

variable {fs fs' : FileSystem}

section Reach

variable {follow follow' : Location → List String → Except OsError Location} {start loc : Location}
  {names : List String}

theorem SameWays.enter_reach (h : fs.SameWays fs') (hdir : fs.isDirectoryAt loc = true)
    (hfollow : ∀ start names, follow start names = .ok loc → follow' start names = .ok loc)
    (hloc : fs.enter .reach follow start names = .ok loc) :
    fs'.enter .reach follow' start names = .ok loc := by
  fun_induction FileSystem.enter fs .reach follow start names with
  | case1 => exact hloc
  | case2 => cases hloc
  | case3 start name rest hstart hvoid ih =>
    have hstart' := (h.isDirectoryAt_eq start).trans (by simpa using hstart)
    rw [enter_void hstart' hvoid]
    exact ih hloc
  | case4 start rest hstart hvoid ih =>
    have hstart' := (h.isDirectoryAt_eq start).trans (by simpa using hstart)
    simp only [FileSystem.enter, hstart', hvoid]
    exact ih hloc
  | case5 => cases hloc
  | case6 start name rest hstart hvoid hup hslashes hnone hlast => simp at hlast
  | case7 => cases hloc
  | case8 start name rest hstart hvoid hup hslashes target found =>
    have hstart' := (h.isDirectoryAt_eq start).trans (by simpa using hstart)
    rcases h.lookup (start ++ [name]) with heq | ⟨loose, _⟩
    · simp only [FileSystem.enter, hstart', hvoid, hup, heq, found]
      exact hfollow _ _ hloc
    · obtain ⟨_, hcontent⟩ := loose _ found
      cases hcontent
  | case9 start name rest hstart hvoid hup hslashes e hplain found ih =>
    have hstart' := (h.isDirectoryAt_eq start).trans (by simpa using hstart)
    rcases h.lookup (start ++ [name]) with heq | ⟨loose, _⟩
    · simp only [FileSystem.enter, hstart', hvoid, hup, heq, found]
      exact ih hloc
    · obtain ⟨_, rfl⟩ := loose.enter hloc
      rw [loose.isDirectoryAt] at hdir
      cases hdir

/-- The way to a directory is kept. -/
theorem SameWays.walk_reach (h : fs.SameWays fs') (hdir : fs.isDirectoryAt loc = true) {links : Nat}
    (hloc : fs.walk .reach links start names = .ok loc) :
    fs'.walk .reach links start names = .ok loc := by
  induction links generalizing start names with
  | zero => exact h.enter_reach hdir (fun _ _ hloc => by cases hloc) hloc
  | succ links ih => exact h.enter_reach hdir (fun _ _ hloc => ih hloc) hloc

end Reach

theorem toOption_eq_some {α ε : Type} {x : Except ε α} {a : α} :
    x.toOption = some a ↔ x = .ok a := by
  cases x <;> simp [Except.toOption]

theorem entryLocation?_eq_some {p : Path} {loc : Location} :
    fs.entryLocation? p = some loc ↔ ∃ start parent name dir, fs.startOf p = .ok start ∧
      p.parent? = some parent ∧ p.fileName? = some name ∧
      fs.walk .reach maxLinks start parent.pieces = .ok dir ∧ dir ++ [name] = loc := by
  simp [entryLocation?, Option.bind_eq_some_iff, toOption_eq_some]

/-- A file or a link is found for removal where it was, if its directory stays. -/
theorem SameWays.entryLocation? (h : fs.SameWays fs') {p : Path} {loc : Location}
    (hdir : fs.isDirectoryAt loc.dropLast = true) (hloc : fs.entryLocation? p = some loc) :
    fs'.entryLocation? p = some loc := by
  obtain ⟨start, parent, name, dir, hstart, hparent, hname, hwalk, rfl⟩ :=
    entryLocation?_eq_some.1 hloc
  rw [List.dropLast_concat] at hdir
  have hstart' := (h.startOf_eq p).trans hstart
  exact entryLocation?_eq_some.2
    ⟨start, parent, name, dir, hstart', hparent, hname, h.walk_reach hdir hwalk, rfl⟩

/-- What is kept when a location is cleared. -/
theorem not_isPrefixOf_iff {loc other : Location} :
    (! loc.isPrefixOf other) = true ↔ ¬ loc <+: other := by
  rw [Bool.not_eq_true', ← Bool.not_eq_true, List.isPrefixOf_iff_prefix]

theorem lookup?_without_of_outside {loc other : Location} (h : ¬ loc <+: other) :
    (fs.without loc).lookup? other = fs.lookup? other := by
  have hkept := not_isPrefixOf_iff.2 h
  have hlookup : (fs.entries.filter fun x => ! loc.isPrefixOf x.1).lookup other =
      fs.entries.lookup other := lookup_filter (fun _ => hkept) fs.entries
  unfold lookup?
  split
  · rfl
  · exact hlookup

/-- Removing what is no directory keeps the working directory. -/
theorem workingDirectory_without {loc : Location} (hne : loc ≠ [])
    (hdir : fs.isDirectoryAt loc = false) :
    (fs.without loc).workingDirectory = fs.workingDirectory := by
  show fs.workingDirectory.filter _ = _
  cases hcwd : fs.workingDirectory with
  | none => rfl
  | some cwd =>
    refine Option.filter_eq_some_iff.2 ⟨rfl, not_isPrefixOf_iff.2 fun hbelow => ?_⟩
    have hfound := fs.settled cwd hcwd loc hbelow hne
    rw [isDirectoryAt, lookup?, if_neg hne, hfound] at hdir
    cases hdir

namespace Vacant

variable {p : Path} {loc : Location} (h : fs.Vacant p loc)
include h

theorem ne_nil : loc ≠ [] := by
  rintro rfl
  have hroot := h.empty [] List.prefix_rfl
  cases hroot

theorem isDirectoryAt : fs.isDirectoryAt loc = false := by
  rw [FileSystem.isDirectoryAt, h.empty loc List.prefix_rfl]
  rfl

theorem write (content : Content) : fs.write p content = .ok (fs.put loc (.file content)) :=
  write_eq_ok.2 ⟨loc, h.way, h.named, h.isDirectoryAt, rfl⟩

/-- Once it was made, the file can be written again. -/
theorem write_again {made : FileSystem} {content changed : Content}
    (hmade : fs.write p content = .ok made) :
    made.write p changed = .ok (made.put loc (.file changed)) := by
  have hways := sameWays_of_write hmade
  have hdir := (hways.isDirectoryAt_eq loc).trans h.isDirectoryAt
  exact write_eq_ok.2 ⟨loc, hways.locate_create.2 h.way, h.named, hdir, rfl⟩

/-- When the file is removed, all stands as before it was made. -/
theorem restored (hways : fs.SameWays fs')
    (hothers : ∀ other, other ≠ loc → fs'.lookup? other = fs.lookup? other) :
    (fs'.remove p).workingDirectory = fs.workingDirectory ∧
      ∀ other, (fs'.remove p).lookup? other = fs.lookup? other := by
  rw [remove, hways.entryLocation? h.directory h.place]
  refine ⟨?_, fun other => ?_⟩
  · have hdir := (hways.isDirectoryAt_eq loc).trans h.isDirectoryAt
    exact (workingDirectory_without h.ne_nil hdir).trans hways.workingDirectory
  · by_cases hbelow : loc <+: other
    · rw [h.empty other hbelow]
      exact lookup?_without_of_isPrefixOf h.ne_nil (List.isPrefixOf_iff_prefix.2 hbelow)
    · have hne : other ≠ loc := fun heq => hbelow (heq ▸ List.prefix_rfl)
      exact (lookup?_without_of_outside hbelow).trans (hothers other hne)

end Vacant

end ScriptBuild.FileSystem
