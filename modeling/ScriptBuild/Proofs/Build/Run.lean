import ScriptBuild.Build
import ScriptBuild.Proofs.Import.Evolution

/-!
# The script of a run

A run that is neither refused nor stopped by its script ran the script to its end; saving and
writing the dependency file leave the state as the script left it. Main statement: `build_of_ran`.
-/

namespace ScriptBuild

/-- The script of the run came to its end. Saving or writing the dependency file may have failed. -/
def BuildOutcome.Ran (o : BuildOutcome) : Prop :=
  match o.result with
  | .error (.configuration _) | .error (.script _) => False
  | _ => True

theorem BuildOutcome.result_eq_ok {o : BuildOutcome} {result : BuildResult}
    (h : o.result.toOption = some result) : o.result = .ok result := by
  cases hresult : o.result with
  | error e =>
    rw [hresult] at h
    cases h
  | ok found =>
    rw [hresult] at h
    exact congrArg Except.ok (Option.some.inj h)

namespace Build

variable {m : Machine} {disk : FileSystem} {c : Configuration} {templates : List String}
  {s : State}

theorem finish_state : (finish m disk c s).state = s := by
  unfold finish
  dsimp only
  split <;> rfl

theorem finish_ran : (finish m disk c s).Ran := by
  unfold finish
  dsimp only
  split <;> exact True.intro

theorem dependencies_of_finish {result : BuildResult} (h : (finish m disk c s).result = .ok result) :
    result.dependencies = s.dependencies := by
  unfold finish at h
  dsimp only at h
  split at h
  · cases h
  · cases h
  · cases h
    rfl

theorem evolving_runScript (setting : Setting) (c : Configuration) :
    setting.Evolving (runScript setting c) := by
  unfold runScript
  split
  · exact fun s => .refl s
  · exact (Setting.Evolving.load _).bind setting.evolves_runChunk

/-- A run whose script came to its end went on from the state that the script left. -/
theorem build_of_ran (h : (c.build m disk templates).Ran) :
    ∃ v s, c.validate = .ok () ∧
      runScript (settingOf m disk c templates) c (State.empty.inject c.cFlags c.linkFlags) =
        (.ok v, s) ∧
      c.build m disk templates = finish m disk c s := by
  unfold Configuration.build at h ⊢
  cases hvalid : c.validate with
  | error e =>
    rw [hvalid] at h
    exact h.elim
  | ok =>
    rw [hvalid] at h
    dsimp only at h ⊢
    rcases hrun : runScript (settingOf m disk c templates) c
        (State.empty.inject c.cFlags c.linkFlags) with ⟨stop | v, s⟩
    · rw [hrun] at h
      exact h.elim
    · exact ⟨v, s, rfl, rfl, rfl⟩

/-- Conversely, a script that comes to its end is followed by what finishes the run. -/
theorem build_of_runScript {v : Value} (hvalid : c.validate = .ok ())
    (hrun : runScript (settingOf m disk c templates) c
      (State.empty.inject c.cFlags c.linkFlags) = (.ok v, s)) :
    c.build m disk templates = finish m disk c s := by
  unfold Configuration.build
  rw [hvalid]
  dsimp only
  rw [hrun]

end Build

end ScriptBuild
