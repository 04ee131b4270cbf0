import ScriptBuild.Import.Serve
import ScriptBuild.Proofs.Evaluation.Congruence

/-!
# What running a file can do

A file is read, its text becomes a chunk, and the chunk is run. `runFile_eq_ok` says what a file
came to that was run to its end, and `ownModule_eq_loaded` where a loader's own module comes from.
-/

namespace ScriptBuild

namespace Setting

open Script (Chunk)

variable {setting : Setting} {serve : Request → Eval Value} {s t : State} {p : Path}
  {loc : Location} {source : String} {v : Value}

theorem load_of_error {cause : OsError} (h : setting.disk.readFile p = .error cause) :
    setting.load p s = (.error (.failed (.io p cause.message)), s) := by
  simp [load, h]

theorem load_of_text (h : setting.disk.readFile p = .ok (loc, source)) :
    setting.load p s = match Chunk.ofText source (some p) with
      | .ok c => (.ok c, s.log (.read loc.toPath))
      | .error e => (.error (.failed (.parse e.fault.message ⟨p, e.position⟩)),
        s.log (.read loc.toPath)) := by
  simp only [load, h, Eval.bind_apply, Eval.modify_apply]
  cases Chunk.ofText source (some p) <;> rfl

/-- A chunk was loaded: the file was read and its text is the chunk. -/
theorem load_eq_ok {c : Chunk} :
    setting.load p s = (.ok c, t) ↔ ∃ loc source, setting.disk.readFile p = .ok (loc, source) ∧
      Chunk.ofText source (some p) = .ok c ∧ t = s.log (.read loc.toPath) := by
  constructor
  · intro h
    rcases hread : setting.disk.readFile p with cause | ⟨loc, source⟩
    · rw [load_of_error hread] at h
      cases h
    · rw [load_of_text hread] at h
      refine ⟨loc, source, rfl, ?_⟩
      rcases hchunk : Chunk.ofText source (some p) with e | c'
      · rw [hchunk] at h
        cases h
      · rw [hchunk] at h
        cases h
        exact ⟨rfl, rfl⟩
  · rintro ⟨loc, source, hread, hchunk, rfl⟩
    rw [load_of_text hread, hchunk]

/-- A file was run to its end: its text is a chunk, which was run after the file was read. -/
theorem runFile_eq_ok :
    setting.runFile serve p s = (.ok v, t) ↔ ∃ loc source c,
      setting.disk.readFile p = .ok (loc, source) ∧ Chunk.ofText source (some p) = .ok c ∧
      setting.execute serve c (s.log (.read loc.toPath)) = (.ok v, t) := by
  unfold runFile
  rw [Eval.bind_apply]
  rcases hload : setting.load p s with ⟨e | c, u⟩
  · constructor
    · intro h
      cases h
    · rintro ⟨loc, source, c, hread, hchunk, _⟩
      rw [load_eq_ok.2 ⟨loc, source, hread, hchunk, rfl⟩] at hload
      cases hload
  · obtain ⟨loc, source, hread, hchunk, rfl⟩ := load_eq_ok.1 hload
    constructor
    · intro h
      exact ⟨loc, source, c, hread, hchunk, h⟩
    · rintro ⟨loc', source', c', hread', hchunk', h⟩
      rw [hread] at hread'
      cases hread'
      rw [hchunk] at hchunk'
      cases hchunk'
      exact h

theorem ownModule_of_builtin {specifier : String} {module : Eval Value}
    (h : builtinModule? specifier = some module) :
    setting.ownModule serve specifier = OwnModule.loaded <$> module := by
  simp only [ownModule, h]

theorem ownModule_of_template {specifier : String} (hbuiltin : builtinModule? specifier = none)
    (hsearch : setting.searchPath specifier = some p) :
    setting.ownModule serve specifier = OwnModule.loaded <$> setting.runFile serve p := by
  simp only [ownModule, hbuiltin, hsearch]

theorem ownModule_of_missing {specifier : String} (hbuiltin : builtinModule? specifier = none)
    (hsearch : setting.searchPath specifier = none) :
    setting.ownModule serve specifier =
      pure (.notFound (setting.notFoundText specifier)) := by
  simp only [ownModule, hbuiltin, hsearch]

/-- A built-in module is always there. -/
theorem builtinModule_ok {specifier : String} {module : Eval Value}
    (h : builtinModule? specifier = some module) (s : State) : ∃ v t, module s = (.ok v, t) := by
  unfold builtinModule? at h
  split at h
  · cases h
    exact ⟨_, _, rfl⟩
  · split at h
    · cases h
      exact ⟨_, _, rfl⟩
    · cases h

/-- A loader's own module is built in, or it is the file that the templates lead to. -/
theorem ownModule_eq_loaded {specifier : String} :
    setting.ownModule serve specifier s = (.ok (.loaded v), t) ↔
      (∃ module, builtinModule? specifier = some module ∧ module s = (.ok v, t)) ∨
      (builtinModule? specifier = none ∧ ∃ p, setting.searchPath specifier = some p ∧
        setting.runFile serve p s = (.ok v, t)) := by
  have mapped : ∀ x : Eval Value, (OwnModule.loaded <$> x) s = (.ok (.loaded v), t) ↔
      x s = (.ok v, t) := by
    intro x
    rw [Eval.map_eq_ok]
    constructor
    · rintro ⟨w, h, heq⟩
      cases heq
      exact h
    · exact fun h => ⟨v, h, rfl⟩
  rcases hbuiltin : builtinModule? specifier with _ | module
  · rcases hsearch : setting.searchPath specifier with _ | p
    · rw [ownModule_of_missing hbuiltin hsearch]
      constructor
      · intro h
        cases h
      · rintro (⟨_, h, _⟩ | ⟨_, _, h, _⟩) <;> cases h
    · rw [ownModule_of_template hbuiltin hsearch, mapped]
      simp
  · rw [ownModule_of_builtin hbuiltin, mapped]
    simp

/-- A loader has no module of that name exactly if it is not built in and no template leads to a
file for it. Nothing changes then. -/
theorem ownModule_eq_notFound {specifier text : String} :
    setting.ownModule serve specifier s = (.ok (.notFound text), t) ↔
      builtinModule? specifier = none ∧ setting.searchPath specifier = none ∧
        text = setting.notFoundText specifier ∧ t = s := by
  have mapped : ∀ x : Eval Value, (OwnModule.loaded <$> x) s ≠ (.ok (.notFound text), t) := by
    intro x h
    obtain ⟨v, _, hv⟩ := Eval.map_eq_ok.1 h
    cases hv
  rcases hbuiltin : builtinModule? specifier with _ | module
  · rcases hsearch : setting.searchPath specifier with _ | p
    · rw [ownModule_of_missing hbuiltin hsearch]
      constructor
      · intro h
        cases h
        exact ⟨rfl, rfl, rfl, rfl⟩
      · rintro ⟨_, _, rfl, rfl⟩
        rfl
    · rw [ownModule_of_template hbuiltin hsearch]
      constructor
      · exact fun h => absurd h (mapped _)
      · rintro ⟨_, h, _⟩
        cases h
  · rw [ownModule_of_builtin hbuiltin]
    constructor
    · exact fun h => absurd h (mapped _)
    · rintro ⟨h, _⟩
      cases h

/-- One of a loader's own modules fails exactly if it is the file that the templates lead to, and
that fails. -/
theorem ownModule_eq_error {specifier : String} {stop : Stop} :
    setting.ownModule serve specifier s = (.error stop, t) ↔
      builtinModule? specifier = none ∧ ∃ p, setting.searchPath specifier = some p ∧
        setting.runFile serve p s = (.error stop, t) := by
  rcases hbuiltin : builtinModule? specifier with _ | module
  · rcases hsearch : setting.searchPath specifier with _ | p
    · rw [ownModule_of_missing hbuiltin hsearch]
      constructor
      · intro h
        cases h
      · rintro ⟨_, _, h, _⟩
        cases h
    · rw [ownModule_of_template hbuiltin hsearch, Eval.map_eq_error]
      simp
  · rw [ownModule_of_builtin hbuiltin, Eval.map_eq_error]
    obtain ⟨v, u, hok⟩ := builtinModule_ok hbuiltin s
    rw [hok]
    constructor
    · intro h
      cases h
    · rintro ⟨h, _⟩
      cases h

end Setting

namespace Eval.Congruence

variable {R : ⦃α : Type⦄ → Eval α → Eval α → Prop} (hR : Congruence R) {setting : Setting}
  {serve serve' : Request → Eval Value} {specifier : String}

include hR

/-- A built-in module is put together of primitive computations. -/
theorem builtinModule {module : Eval Value}
    (h : Setting.builtinModule? specifier = some module) : R module module := by
  have strings : ∀ items, R (Setting.newStrings items) (Setting.newStrings items) :=
    fun items => hR.sequence hR.counted fun _ => hR.value _
  unfold Setting.builtinModule? at h
  split at h
  · cases h
    exact hR.sequence hR.state fun _ => hR.sequence (strings _) fun _ =>
      hR.sequence (strings _) fun _ => hR.sequence hR.counted fun _ => hR.value _
  · split at h
    · cases h
      exact hR.sequence hR.counted fun _ => hR.value _
    · cases h

/-- The relation holds of a loader's own modules, if it holds of the files that the templates lead
to. -/
theorem ownModule (hrun : ∀ p, R (setting.runFile serve p) (setting.runFile serve' p)) :
    R (setting.ownModule serve specifier) (setting.ownModule serve' specifier) := by
  cases hbuiltin : Setting.builtinModule? specifier with
  | some module =>
    rw [Setting.ownModule_of_builtin hbuiltin, Setting.ownModule_of_builtin hbuiltin]
    exact hR.map (hR.builtinModule hbuiltin) _
  | none =>
    cases hsearch : setting.searchPath specifier with
    | some p =>
      rw [Setting.ownModule_of_template hbuiltin hsearch,
        Setting.ownModule_of_template hbuiltin hsearch]
      exact hR.map (hrun p) _
    | none =>
      rw [Setting.ownModule_of_missing hbuiltin hsearch,
        Setting.ownModule_of_missing hbuiltin hsearch]
      exact hR.value _

end Eval.Congruence

end ScriptBuild
