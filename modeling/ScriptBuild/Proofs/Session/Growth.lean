import ScriptBuild.FileSystem.Build
import ScriptBuild.Proofs.Import.Growth
import ScriptBuild.Proofs.Session.Stack

/-!
# A session only adds to its state

No step takes anything away that was recorded, added, exported or put into the cache before it, be it
one that fails in the middle of nested modules. Main statement: `state_grows`.
-/

namespace ScriptBuild

namespace Setting

variable {setting : Setting}

/-- The bare loader takes nothing away either. -/
theorem grows_requireBare (setting : Setting) (r : Request) (s : State) :
    s.Grows (setting.requireBare r s).2 := by
  have h := @serves_serve setting .bare r s
  rw [requireBare]
  generalize setting.serve .bare r s = outcome at h
  have hload : ∀ {loaded : Except Stop (Value × ModuleSource)} {t : State},
      setting.loadModule .bare r (s.push r.key) = (loaded, t) → s.Grows t.pop := by
    intro loaded t load
    cases loads_iff.2 load with
    | @resolved file _ _ _ run =>
      cases run
      exact .of_recorded [file] rfl rfl rfl rfl rfl
    | unresolved _ own =>
      cases own
      exact .of_kept rfl rfl rfl rfl rfl
    | resolvedFailed _ run | resolvedStopped _ run => cases run
    | own _ own | ownFailed _ own => cases own
  cases h with
  | cached | cycle => exact .refl s
  | failed _ _ load => exact hload load
  | loaded _ _ load => exact (hload load).trans (grows_register _ _ _ _)

end Setting

namespace Session

/-- No step takes anything away. -/
theorem grows_step (s : Session) (x : Step) : s.state.Grows (s.step x).2.state := by
  have h := changes_step s x
  generalize (s.step x).2.state = t at h
  cases h with
  | evolved body => exact body.grows
  | bare r => exact s.setting.grows_requireBare r s.state
  | registered m specifier nextInstance =>
    have hcounted : s.state.Grows { s.state with nextInstance } := .of_kept rfl rfl rfl rfl rfl
    exact hcounted.trans (Setting.grows_register _ _ _ _)
  | recorded file => exact .of_recorded [file] rfl rfl rfl rfl rfl
  | injected cFlags linkFlags => exact .inject s.state cFlags linkFlags

theorem grows_afterSteps (s : Session) (xs : List Step) :
    s.state.Grows (s.afterSteps xs).state := by
  induction xs generalizing s with
  | nil => exact .refl s.state
  | cons x xs ih => exact (s.grows_step x).trans (ih _)

/-- Nothing is taken away between the beginning of a step and one of its moments, nor between the
moment and the end. -/
theorem Passes.grows {s : Session} {x : Step} {m : Moment} (h : s.Passes x m) :
    s.state.Grows m.state ∧ (m.after s.setting.requireModule).Grows (s.step x).2.state := by
  cases h with
  | before => exact ⟨.refl s.state, s.grows_step x⟩
  | after => exact ⟨s.grows_step x, .refl _⟩
  | asked => exact ⟨.refl s.state, .refl _⟩
  | ran chunk inner =>
    have hend := inner.grows
    rw [← Setting.runChunk_eq] at hend
    simp only [step, chunk]
    exact ⟨inner.evolves.grows, hend⟩
  | ranFile inner =>
    have hend := inner.grows
    unfold Setting.runFile at hend
    simp only [← Setting.runChunk_eq] at hend
    exact ⟨inner.evolves.grows, hend⟩
  | looked inner =>
    have hend := inner.grows
    rw [← Setting.importOwn_eq] at hend
    exact ⟨inner.evolves.grows, hend⟩

/-- In every session that starts with nothing being loaded, whatever its steps are and however they
end, nothing is being loaded between them, and no step takes anything away: the records, the link
flags, the flags for headers and the exported names go on where they ended, and each module in the
cache stays as it is. So it is from each step to every later one, and inside of a step from its
beginning to each moment, be it in a module that is going to fail, and from there to its end. -/
theorem state_grows (s : Session) (idle : s.state.loading = []) (xs : List Step) (x : Step) :
    let now := s.afterSteps xs
    now.state.loading = [] ∧
    now.state.Grows (now.step x).2.state ∧
    (∀ ys, now.state.Grows (now.afterSteps ys).state) ∧
    ∀ outer m, now.setting.Within (now.Passes x) outer m →
      now.state.Grows m.state ∧ m.state.Grows (now.step x).2.state := by
  intro now
  have hidle : now.state.loading = [] := by
    rw [loading_afterSteps, idle]
  refine ⟨hidle, now.grows_step x, now.grows_afterSteps, fun outer m h => ?_⟩
  obtain ⟨hbefore, hafter⟩ := h.grows (fun _ hm => hm.grows.1) fun _ hm => hm.grows.2
  exact ⟨hbefore, (now.setting.grows_after m).trans hafter⟩

/-- What a module exported and linked before it failed is still there when another one, which asks for
it, fails as well. -/
theorem failed_module_keeps :
    let disk := FileSystem.ofEntries ⟨"/"⟩
      [(⟨"/a.t"⟩, .file (.text "export x = 1\nlink \"m\"\nreturn require \"gone\"\n")),
        (⟨"/b.t"⟩, .file (.text "export y = 2\nlink \"n\"\nreturn require \".a\"\n"))]
    let s : Session := ⟨.plain {}, ⟨disk, ⟨[], "t"⟩, [], .checked⟩, State.empty⟩
    let a := Step.require ⟨".a", some ⟨"/main.t"⟩⟩
    let b := Step.require ⟨".b", some ⟨"/main.t"⟩⟩
    let now := s.afterSteps [a]
    s.state.loading = [] ∧ (now.step b).1.failure?.isSome = true ∧
      now.state.exports.names = ["x"] ∧ now.state.linkFlags = ["m"] ∧
      ["x"] <+: (now.step b).2.state.exports.names ∧ ["m"] <+: (now.step b).2.state.linkFlags := by
  intro disk s a b now
  have hnames : now.state.exports.names = ["x"] := by decide +kernel
  have hflags : now.state.linkFlags = ["m"] := by decide +kernel
  obtain ⟨_, hgrows, _⟩ := state_grows s rfl [a] b
  exact ⟨rfl, by decide +kernel, hnames, hflags, hnames ▸ hgrows.exported,
    hflags ▸ hgrows.linkFlags⟩

end Session

end ScriptBuild
