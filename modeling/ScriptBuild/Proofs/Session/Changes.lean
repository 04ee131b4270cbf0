import ScriptBuild.Proofs.Import.Evolution
import ScriptBuild.Session

/-!
# What a step changes

The state after a step, for every kind of step. `changes_step` says that these are all, so what
every step keeps is shown once for each of the few changes.
-/

namespace ScriptBuild

namespace Setting

variable {setting : Setting} {s : State}

/-- The bare loader runs nothing: its load ends in the state in which it began, up to what is logged
and recorded of a file. -/
theorem loadModule_bare {r : Request} {outcome : Except Stop (Value × ModuleSource)} {t : State}
    (h : setting.loadModule .bare r s = (outcome, t)) :
    t.loading = s.loading ∧ t.cache = s.cache ∧ t.exports = s.exports ∧
      ∀ e, outcome = .error e → ∃ text, e = .failed (.unresolved r.specifier r.origin
        (setting.refusal r).1 (setting.refusal r).2 text) := by
  cases loads_iff.2 h with
  | resolved _ run =>
    cases run
    exact ⟨rfl, rfl, rfl, fun e he => by cases he⟩
  | unresolved _ own =>
    cases own
    exact ⟨rfl, rfl, rfl, fun e he => by cases he; exact ⟨_, rfl⟩⟩
  | resolvedFailed _ run | resolvedStopped _ run => cases run
  | own _ own | ownFailed _ own => cases own

/-- A request that the bare loader serves leaves the stack and the exports as it found them. -/
theorem requireBare_keeps (setting : Setting) (r : Request) (s : State) :
    (setting.requireBare r s).2.loading = s.loading ∧
      (setting.requireBare r s).2.exports = s.exports := by
  have popped : ∀ {t : State}, t.loading = (s.push r.key).loading → t.pop.loading = s.loading := by
    intro t ht
    show t.loading.dropLast = s.loading
    rw [ht]
    exact List.dropLast_concat
  have h := @serves_serve setting .bare r s
  rw [requireBare]
  generalize setting.serve .bare r s = outcome at h
  cases h with
  | cached | cycle => exact ⟨rfl, rfl⟩
  | failed _ _ load =>
    obtain ⟨hloading, _, hexports, _⟩ := loadModule_bare load
    exact ⟨popped hloading, hexports⟩
  | loaded _ _ load =>
    obtain ⟨hloading, _, hexports, _⟩ := loadModule_bare load
    obtain ⟨hloading', hexports'⟩ := register_keeps _ _ _ _
    exact ⟨hloading'.trans (popped hloading), hexports'.trans hexports⟩

end Setting

namespace Session

/-- Saving changes the file system and not the state. -/
theorem save_state (s : Session) (output : Path) : (s.save output).2.state = s.state :=
  rfl

theorem emit_state (s : Session) (depfile target : Path) (root : Option Path) :
    (s.emit depfile target root).2.state = s.state := by
  unfold emit
  split <;> rfl

/-- The state after a registration, with the instances of the value counted. -/
theorem register_state (s : Session) (key specifier : String) (value : Value)
    (source : ModuleSource) :
    let renewed := value.renew s.state.nextInstance
    (s.register key specifier value source).2.state =
      (s.setting.register s.setting.searchPath ⟨key, renewed.1, source⟩ specifier
        { s.state with nextInstance := renewed.2 }).2 := by
  unfold register
  dsimp only
  split <;> next hout => rw [hout]

/-- What one step can do to the state. -/
inductive Changes (s : Session) : State → Prop where
  /-- Scripts ran, or nothing was done. -/
  | evolved {t : State} (body : s.setting.Evolves s.state t) : Changes s t
  | bare (r : Request) : Changes s (s.setting.requireBare r s.state).2
  | registered (m : CachedModule Value) (specifier : String) (nextInstance : Nat) :
      Changes s (s.setting.register s.setting.searchPath m specifier
        { s.state with nextInstance }).2
  | recorded (file : Path) : Changes s (s.state.record file)
  | injected (cFlags linkFlags : List String) : Changes s (s.state.inject cFlags linkFlags)

theorem changes_step (s : Session) (x : Step) : s.Changes (s.step x).2.state := by
  cases x with
  | require r => exact .evolved (s.setting.evolves_requireModule r s.state)
  | requireBare r => exact .bare r
  | exec source =>
    rw [step]
    split
    · exact .evolved (s.setting.evolves_runChunk _ s.state)
    · exact .evolved (.refl s.state)
  | execFile p =>
    exact .evolved ((Setting.Evolving.load p).bind s.setting.evolves_runChunk s.state)
  | load p => exact .evolved (Setting.Evolving.load p s.state)
  | importOwn specifier => exact .evolved (s.setting.evolves_importOwn specifier s.state)
  | register key specifier value source =>
    have hstate := s.register_state key specifier value source
    exact hstate ▸ .registered _ specifier _
  | record file => exact .recorded file
  | inject cFlags linkFlags => exact .injected cFlags linkFlags
  | save output =>
    exact (s.save_state output).symm ▸ .evolved (.refl s.state)
  | emit depfile target root =>
    exact (s.emit_state depfile target root).symm ▸ .evolved (.refl s.state)
  | searchPath | cached | exports | exportValue | write | remove => exact .evolved (.refl s.state)

/-- Between steps the stack is as it was. -/
theorem Changes.loading_eq {s : Session} {t : State} (h : s.Changes t) :
    t.loading = s.state.loading := by
  cases h with
  | evolved body => exact body.loading_eq
  | bare r => exact (s.setting.requireBare_keeps r s.state).1
  | registered m specifier => exact (Setting.register_keeps _ m specifier _).1
  | recorded | injected => rfl

theorem loading_afterSteps (s : Session) (xs : List Step) :
    (s.afterSteps xs).state.loading = s.state.loading := by
  induction xs generalizing s with
  | nil => rfl
  | cons x xs ih => exact (ih _).trans (changes_step s x).loading_eq

end Session

end ScriptBuild
