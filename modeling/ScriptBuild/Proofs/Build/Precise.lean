import ScriptBuild.Machine.Plain
import ScriptBuild.FileSystem.Build
import ScriptBuild.Proofs.Build.Run
import ScriptBuild.Proofs.Import.Ledger

/-!
# Which dependencies were read

A file is recorded because its text was read, with one exception: a built-in module is looked up
under the templates after the fact, and a file found there is recorded although nothing reads it.
Main statements: `dependencies_read_iff` says that this is the only exception, and
`unread_dependency` is a run in which it occurs.
-/

namespace ScriptBuild

/-- The text of the file was read, as a script or as a header. -/
def State.Reads (s : State) (p : Path) : Prop :=
  .read p ∈ s.history ∨ p ∈ s.headerFiles

/-- A built-in module of that name was put into the cache. -/
def State.BuiltIn (s : State) (name : String) : Prop :=
  (Setting.builtinModule? name).isSome ∧ ∃ key, .registered key name .runtime ∈ s.history

theorem State.mem_headerFiles {s : State} {p : Path} :
    p ∈ s.headerFiles ↔ ∃ files, .headers files ∈ s.history ∧ p ∈ files := by
  simp only [headerFiles, List.mem_flatMap]
  constructor
  · rintro ⟨e, he, hp⟩
    cases e with
    | headers files => exact ⟨files, he, hp⟩
    | _ => cases hp
  · rintro ⟨files, he, hp⟩
    exact ⟨_, he, hp⟩

namespace Setting

variable {setting : Setting} {s t : State} {p : Path}

/-- There is a reason to record the file: it was read, or the templates lead to it under the name of
a built-in module that was loaded. -/
structure Warrants (setting : Setting) (s : State) (p : Path) : Prop where
  canonical : setting.disk.canonicalize p = .ok p
  reason : s.Reads p ∨ ∃ name, s.BuiltIn name ∧ setting.templateFile? name = some p

theorem canonicalize_of_templateFile? {specifier : String}
    (h : setting.templateFile? specifier = some p) : setting.disk.canonicalize p = .ok p := by
  obtain ⟨q, _, hq⟩ := Option.bind_eq_some_iff.1 h
  rcases hcanonical : setting.disk.canonicalize q with cause | found
  · rw [hcanonical] at hq
    cases hq
  · rw [hcanonical] at hq
    cases hq
    exact FileSystem.canonicalize_canonical hcanonical

theorem Warrants.mono (h : setting.Warrants s p) (hhistory : s.history ⊆ t.history) :
    setting.Warrants t p := by
  refine ⟨h.canonical, ?_⟩
  rcases h.reason with (hread | hheader) | ⟨name, ⟨hsome, key, hregistered⟩, hfile⟩
  · exact .inl (.inl (hhistory hread))
  · obtain ⟨files, he, hp⟩ := State.mem_headerFiles.1 hheader
    exact .inl (.inr (State.mem_headerFiles.2 ⟨files, hhistory he, hp⟩))
  · exact .inr ⟨name, ⟨hsome, key, hhistory hregistered⟩, hfile⟩

/-- There is a reason for whatever running scripts records. -/
theorem Evolves.warrants (h : setting.Evolves s t) (hp : p ∈ t.dependencies) :
    p ∈ s.dependencies ∨ setting.Warrants t p := by
  induction h with
  | refl | counted | exported | linked | read | entered | left => exact .inl hp
  | trans _ next ih₁ ih₂ =>
    rcases ih₂ hp with hp | hwarrants
    · exact (ih₁ hp).imp_right fun h => h.mono next.history_grows.subset
    · exact .inr hwarrants
  | @imported s files texts =>
    rcases List.mem_append.1 hp with hp | hp
    · exact .inl hp
    · refine .inr ⟨(texts p hp).canonical, .inl (.inr ?_)⟩
      exact State.mem_headerFiles.2 ⟨files, List.mem_append_right _ List.mem_cons_self, hp⟩
  | abandoned _ _ _ ih => exact (ih hp).imp_right fun h => h.mono (List.Subset.refl _)
  | @completed s t r v source _ _ _ origin ih =>
    rcases List.mem_append.1 hp with hp | hp
    · exact (ih hp).imp_right fun h => h.mono (List.subset_append_left _ _)
    · refine .inr ?_
      have hfile := Option.mem_toList.1 hp
      cases origin with
      | resolved found text read =>
        cases hfile
        exact ⟨text.canonical, .inl (.inl (List.mem_append_left _ read))⟩
      | hosted _ _ searched text read =>
        have hcanonical := canonicalize_of_templateFile? hfile
        rw [recordedFile?, templateFile?_of_readFile searched text] at hfile
        cases hfile
        exact ⟨hcanonical, .inl (.inl (List.mem_append_left _ read))⟩
      | @builtIn module _ builtin =>
        refine ⟨canonicalize_of_templateFile? hfile, .inr ⟨r.specifier, ⟨?_, r.key, ?_⟩, hfile⟩⟩
        · rw [builtin]
          rfl
        · exact List.mem_append_right _ List.mem_cons_self

/-- The file that the templates lead to under the name of a built-in module is recorded with it. -/
theorem Evolves.mem_dependencies_of_builtIn {cFlags linkFlags : List String}
    (h : setting.Evolves (State.empty.inject cFlags linkFlags) t) {name : String}
    (hname : t.BuiltIn name) (hfile : setting.templateFile? name = some p) :
    p ∈ t.dependencies := by
  obtain ⟨_, key, hregistered⟩ := hname
  have hin : (key, name, ModuleSource.runtime) ∈ t.registrations :=
    List.mem_filterMap.2 ⟨_, hregistered, rfl⟩
  have hpos : 0 < t.registrations.countP
      fun x => x.2.2 = .runtime ∧ setting.templateFile? x.2.1 = some p :=
    List.countP_pos_iff.2 ⟨_, hin, by simp [hfile]⟩
  have hbalance : t.dependencies.count p + 0 = 0 + setting.expected t p := h.balanced p
  rw [expected] at hbalance
  exact List.count_pos_iff.1 (by omega)

end Setting

namespace Build

/-- The dependencies of a run that succeeds are canonical paths. All of them are files that the run
read exactly if it read each file that the templates lead to under the name of a built-in module
that it loaded: such a file is recorded whether or not it was read, and every other one because it
was. -/
theorem dependencies_read_iff (c : Configuration) (m : Machine) (disk : FileSystem)
    (templates : List String) (result : BuildResult)
    (h : (c.build m disk templates).result = .ok result) :
    let s := (c.build m disk templates).state
    let setting := settingOf m disk c templates
    (∀ p ∈ result.dependencies, disk.canonicalize p = .ok p) ∧
    (∀ p ∈ result.dependencies,
      s.Reads p ∨ ∃ name, s.BuiltIn name ∧ setting.templateFile? name = some p) ∧
    (∀ name p, s.BuiltIn name → setting.templateFile? name = some p → p ∈ result.dependencies) ∧
    ((∀ p ∈ result.dependencies, s.Reads p) ↔
      ∀ name p, s.BuiltIn name → setting.templateFile? name = some p → s.Reads p) := by
  intro s setting
  have hran : (c.build m disk templates).Ran := by
    rw [BuildOutcome.Ran, h]
    trivial
  obtain ⟨v, u, _, hrun, hfinish⟩ := build_of_ran hran
  have hevolves := (evolving_runScript setting c).evolves hrun
  have hstate : s = u := (congrArg BuildOutcome.state hfinish).trans finish_state
  have hdependencies : result.dependencies = s.dependencies := by
    rw [hfinish] at h
    rw [hstate]
    exact dependencies_of_finish h
  rw [hdependencies]
  rw [← hstate] at hevolves
  have hwarrants : ∀ p ∈ s.dependencies, setting.Warrants s p := fun p hp =>
    (hevolves.warrants hp).resolve_left List.not_mem_nil
  have hrecorded : ∀ name p, s.BuiltIn name → setting.templateFile? name = some p →
      p ∈ s.dependencies := fun name p => hevolves.mem_dependencies_of_builtIn
  refine ⟨fun p hp => (hwarrants p hp).canonical, fun p hp => (hwarrants p hp).reason, hrecorded,
    ?_, ?_⟩
  · intro hall name p hname hfile
    exact hall p (hrecorded name p hname hfile)
  · intro hall p hp
    rcases (hwarrants p hp).reason with hread | ⟨name, hname, hfile⟩
    · exact hread
    · exact hall name p hname hfile

/-- A run whose script loads a module under the templates and a built-in one that no file is named
after has read its only dependency. -/
theorem template_dependency_read :
    let disk := FileSystem.ofEntries ⟨"/"⟩
      [(⟨"/main.t"⟩, .file (.text "local p = require \"platform\"\nlocal a = require \"a\"\n")),
       (⟨"/a.t"⟩, .file (.text "return 1\n"))]
    let c : Configuration := { filename := ⟨"/main.t"⟩, noDefaultModuleDirectories := true }
    let o := c.build (.plain {}) disk Setting.defaultTemplates
    o.result = .ok ⟨[⟨"/a.t"⟩], []⟩ ∧ (o.state.Reads ⟨"/a.t"⟩ ∨
      ∃ name, o.state.BuiltIn name ∧
        (settingOf (.plain {}) disk c Setting.defaultTemplates).templateFile? name = some ⟨"/a.t"⟩) := by
  intro disk c o
  have hresult : o.result = .ok ⟨[⟨"/a.t"⟩], []⟩ :=
    BuildOutcome.result_eq_ok (by decide +kernel)
  obtain ⟨_, hreason, _⟩ :=
    dependencies_read_iff c (.plain {}) disk Setting.defaultTemplates _ hresult
  exact ⟨hresult, hreason _ (List.mem_singleton_self _)⟩

/-- A file that is no script is a dependency of a run that asks for the built-in module of its name.
The run does not read it. -/
theorem unread_dependency :
    let disk := FileSystem.ofEntries ⟨"/"⟩
      [(⟨"/main.t"⟩, .file (.text "local b = require \"build\"\n")),
       (⟨"/build.t"⟩, .file (.text "(\n"))]
    let c : Configuration := { filename := ⟨"/main.t"⟩, noDefaultModuleDirectories := true }
    let o := c.build (.plain {}) disk Setting.defaultTemplates
    o.result = .ok ⟨[⟨"/build.t"⟩], []⟩ ∧ ¬ o.state.Reads ⟨"/build.t"⟩ := by
  intro disk c o
  have hunread : .read ⟨"/build.t"⟩ ∉ o.state.history ∧ ⟨"/build.t"⟩ ∉ o.state.headerFiles := by
    decide +kernel
  have hresult : o.result = .ok ⟨[⟨"/build.t"⟩], []⟩ :=
    BuildOutcome.result_eq_ok (by decide +kernel)
  exact ⟨hresult, fun h => h.elim hunread.1 hunread.2⟩

end Build

end ScriptBuild
