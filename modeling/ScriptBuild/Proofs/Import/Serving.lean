import ScriptBuild.FileSystem.Place
import ScriptBuild.Import.Serve

/-!
# What serving a request can do

Every way in which serving a request can end, with the state that it leaves. `loads_iff` and
`serves_iff` say that these are all and that each of them is what the functions compute, so nothing
that follows opens the functions again.
-/

namespace ScriptBuild

namespace State

/-- The state while one more key is being loaded. -/
def push (s : State) (key : String) : State :=
  { s with loading := s.loading ++ [key] }

theorem mem_push (s : State) (key : String) : key ∈ (s.push key).loading :=
  List.mem_append_right _ (List.mem_singleton_self key)

/-- The state after the innermost load ended. -/
def pop (s : State) : State :=
  { s with loading := s.loading.dropLast }

/-- The state after a module was put into the cache, and its file recorded if there is one. -/
def adopt (s : State) (m : CachedModule Value) (specifier : String) (file : Option Path) : State :=
  { s with
    cache := s.cache ++ [m]
    dependencies := s.dependencies ++ file.toList
    history := s.history ++ [.registered m.key specifier m.source] }

end State

theorem Eval.loading_apply {α : Type} (key : String) (x : Eval α) (s : State) :
    Eval.loading key x s = ((x (s.push key)).1, (x (s.push key)).2.pop) := rfl

namespace Setting

variable {setting : Setting} {loader : Loader} {r : Request} {s t : State}

/-- The file that the search directories lead to. -/
def resolved? (setting : Setting) (r : Request) : Option Path :=
  match r.origin with
  | none => none
  | some file =>
    ((setting.resolver.resolve setting.disk r.specifier (some file)).toOption).map (·.path)

/-- What the search directories say to a request that they lead to no file for: the candidates that
were tried, and why none was. -/
def refusal (setting : Setting) (r : Request) : List Candidate × Option String :=
  match r.origin with
  | none => ([], some "requesting chunk was not loaded from a file")
  | some file =>
    match setting.resolver.resolve setting.disk r.specifier (some file) with
    | .error (.exhausted _ _ tried) => (tried, none)
    | .error e => ([], some e.message)
    | .ok _ => ([], none)

/-- The canonical path of the file that a loader's own module stands in. -/
def ownFile? (setting : Setting) (locate : String → Option Path) (specifier : String) :
    Option Path :=
  (locate specifier).bind fun p => (setting.disk.canonicalize p).toOption

/-- The canonical path of the file that the templates lead to. -/
def templateFile? (setting : Setting) (specifier : String) : Option Path :=
  setting.ownFile? setting.searchPath specifier

/-- The ways in which loading a module can end. -/
inductive Loads (setting : Setting) (loader : Loader) (r : Request) (s : State) :
    Except Stop (Value × ModuleSource) × State → Prop where
  /-- The search directories lead to a file, whose script runs to its end. -/
  | resolved {file : Path} {v : Value} {t : State} (found : setting.resolved? r = some file)
      (run : loader.run file (s.log (.entered ⟨file, r.specifier⟩)) = (.ok v, t)) :
      Loads setting loader r s
        (.ok (v, .resolved file), (t.log (.left ⟨file, r.specifier⟩)).record file)
  | resolvedFailed {file : Path} {e : ModuleError} {t : State}
      (found : setting.resolved? r = some file)
      (run : loader.run file (s.log (.entered ⟨file, r.specifier⟩)) = (.error (.failed e), t)) :
      Loads setting loader r s (.error (.failed (e.importedFrom file r.specifier)), t)
  | resolvedStopped {file : Path} {stop : Stop} {t : State}
      (found : setting.resolved? r = some file)
      (run : loader.run file (s.log (.entered ⟨file, r.specifier⟩)) = (.error stop, t))
      (final : stop.Final) : Loads setting loader r s (.error stop, t)
  /-- The loader has the module. -/
  | own {v : Value} {t : State} (missing : setting.resolved? r = none)
      (own : loader.own r.specifier s = (.ok (.loaded v), t)) :
      Loads setting loader r s (.ok (v, .runtime), t)
  | ownFailed {e : Stop} {t : State} (missing : setting.resolved? r = none)
      (own : loader.own r.specifier s = (.error e, t)) : Loads setting loader r s (.error e, t)
  | unresolved {text : String} {t : State} (missing : setting.resolved? r = none)
      (own : loader.own r.specifier s = (.ok (.notFound text), t)) :
      Loads setting loader r s (.error (.failed (.unresolved r.specifier r.origin
        (setting.refusal r).1 (setting.refusal r).2 text)), t)

theorem exists_probe_of_resolved {file : Path} (found : setting.resolved? r = some file) :
    ∃ p, setting.disk.probe p = some file := by
  unfold resolved? at found
  split at found
  · cases found
  · next origin _ =>
    rcases hres : setting.resolver.resolve setting.disk r.specifier (some origin) with e | result
    · rw [hres] at found
      cases found
    · rw [hres] at found
      cases found
      exact Resolver.exists_probe_of_resolve hres

/-- The search directories lead to canonical paths. -/
theorem canonicalize_of_resolved {file : Path} (found : setting.resolved? r = some file) :
    setting.disk.canonicalize file = .ok file := by
  obtain ⟨p, hprobe⟩ := exists_probe_of_resolved found
  exact FileSystem.canonicalize_of_probe hprobe

/-- A request for a file that the search directories lead to runs it. -/
theorem askDirectories_of_resolved {file : Path} (found : setting.resolved? r = some file) :
    setting.askDirectories loader r = do
      modify (·.log (.entered ⟨file, r.specifier⟩))
      let v ← (loader.run file).mapError (·.importedFrom file r.specifier)
      modify fun s => (s.log (.left ⟨file, r.specifier⟩)).record file
      return .loaded v file := by
  unfold resolved? at found
  unfold askDirectories
  cases horigin : r.origin with
  | none => rw [horigin] at found; cases found
  | some origin =>
    rw [horigin] at found
    cases hres : setting.resolver.resolve setting.disk r.specifier (some origin) with
    | error e => simp [hres, Except.toOption] at found
    | ok result =>
      simp only [hres, Except.toOption, Option.map_some, Option.some.injEq] at found
      simp only [hres, found]

/-- A request for a module that the search directories do not lead to does nothing there. -/
theorem askDirectories_of_missing (missing : setting.resolved? r = none) :
    setting.askDirectories loader r =
      pure (.nothing (setting.refusal r).1 (setting.refusal r).2) := by
  unfold resolved? at missing
  unfold askDirectories refusal
  cases horigin : r.origin with
  | none => rfl
  | some origin =>
    rw [horigin] at missing
    cases hres : setting.resolver.resolve setting.disk r.specifier (some origin) with
    | ok result => simp [hres, Except.toOption] at missing
    | error e => cases e <;> simp only [hres]

/-- Loading ends in one of the ways listed. -/
theorem loads_loadModule : Loads setting loader r s (setting.loadModule loader r s) := by
  unfold loadModule
  cases hfound : setting.resolved? r with
  | some file =>
    rw [askDirectories_of_resolved hfound]
    simp only [Eval.bind_apply, Eval.modify_apply, Eval.mapError]
    rcases hrun : loader.run file (s.log (.entered ⟨file, r.specifier⟩)) with ⟨_ | v, t⟩
    · next stop =>
      cases stop with
      | failed e => exact .resolvedFailed hfound hrun
      | overflow | tooDeep => exact .resolvedStopped hfound hrun trivial
    · exact .resolved hfound hrun
  | none =>
    rw [askDirectories_of_missing hfound]
    simp only [Eval.bind_apply, Eval.pure_apply]
    rcases hown : loader.own r.specifier s with ⟨_ | m, t⟩
    · exact .ownFailed hfound hown
    · cases m with
      | loaded v => exact .own hfound hown
      | notFound text => exact .unresolved hfound hown

/-- What loading comes to in each of these ways. -/
theorem Loads.eq {outcome : Except Stop (Value × ModuleSource) × State}
    (h : Loads setting loader r s outcome) : setting.loadModule loader r s = outcome := by
  unfold loadModule
  cases h with
  | resolved found run | resolvedFailed found run =>
    rw [askDirectories_of_resolved found]
    simp only [Eval.bind_apply, Eval.modify_apply, Eval.mapError, run, Eval.pure_apply]
  | resolvedStopped found run final =>
    rw [askDirectories_of_resolved found]
    simp only [Eval.bind_apply, Eval.modify_apply, Eval.mapError_of_final run final]
  | own missing own | ownFailed missing own | unresolved missing own =>
    rw [askDirectories_of_missing missing]
    simp only [Eval.bind_apply, Eval.pure_apply, own, Eval.fail_apply]

/-- The ways in which loading a module can end are what it comes to. -/
theorem loads_iff {outcome : Except Stop (Value × ModuleSource) × State} :
    Loads setting loader r s outcome ↔ setting.loadModule loader r s = outcome :=
  ⟨Loads.eq, fun h => h ▸ loads_loadModule⟩

/-- The file of a new module that is recorded when it is put into the cache. -/
def hookFile? (setting : Setting) (locate : String → Option Path) (m : CachedModule Value)
    (specifier : String) : Option Path :=
  if m.source = .runtime then setting.ownFile? locate specifier else none

theorem register_of_taken {locate : String → Option Path} {m n : CachedModule Value}
    {specifier : String} (taken : s.cache.get? m.key = some n) :
    setting.register locate m specifier s = (.ok false, s) := by
  have : s.cache.register? m = none := by simp [Cache.register?, taken]
  simp only [register, Eval.bind_apply, Eval.get_apply, this, Eval.pure_apply]

theorem register_of_new {locate : String → Option Path} {m : CachedModule Value}
    {specifier : String} (new : s.cache.get? m.key = none) :
    setting.register locate m specifier s =
      (.ok true, s.adopt m specifier (setting.hookFile? locate m specifier)) := by
  have : s.cache.register? m = some (s.cache ++ [m]) := by simp [Cache.register?, new]
  simp only [register, Eval.bind_apply, Eval.get_apply, this, Eval.modify_apply, hookFile?, ownFile?]
  split
  · cases hfile : (locate specifier).bind fun p => (setting.disk.canonicalize p).toOption with
    | none => simp [State.log, State.adopt]
    | some file => simp [Eval.bind_apply, State.log, State.record, State.adopt]
  · simp [State.log, State.adopt]

/-- A registration is none of the loads in progress, and it exports nothing. -/
theorem register_keeps (locate : String → Option Path) (m : CachedModule Value)
    (specifier : String) (s : State) :
    (setting.register locate m specifier s).2.loading = s.loading ∧
      (setting.register locate m specifier s).2.exports = s.exports := by
  rcases hkey : s.cache.get? m.key with _ | taken
  · rw [register_of_new hkey]
    exact ⟨rfl, rfl⟩
  · rw [register_of_taken hkey]
    exact ⟨rfl, rfl⟩

/-- The ways in which serving a request can end. -/
inductive Serves (setting : Setting) (loader : Loader) (r : Request) (s : State) :
    Except Stop Value × State → Prop where
  /-- The module is in the cache. Nothing changes. -/
  | cached {m : CachedModule Value} (found : s.cache.get? r.key = some m) :
      Serves setting loader r s (.ok m.value, s)
  /-- The module is being loaded. Nothing changes. -/
  | cycle (fresh : s.cache.get? r.key = none) (busy : r.key ∈ s.loading) :
      Serves setting loader r s (.error (.failed (.cycle (s.loading ++ [r.key]))), s)
  | failed {e : Stop} {t : State} (fresh : s.cache.get? r.key = none) (free : r.key ∉ s.loading)
      (load : setting.loadModule loader r (s.push r.key) = (.error e, t)) :
      Serves setting loader r s (.error e, t.pop)
  | loaded {v : Value} {source : ModuleSource} {t : State} (fresh : s.cache.get? r.key = none)
      (free : r.key ∉ s.loading)
      (load : setting.loadModule loader r (s.push r.key) = (.ok (v, source), t)) :
      Serves setting loader r s
        (.ok v, (setting.register loader.locate ⟨r.key, v, source⟩ r.specifier t.pop).2)

theorem register_fst (locate : String → Option Path) (m : CachedModule Value)
    (specifier : String) (s : State) :
    ∃ new, (setting.register locate m specifier s).1 = .ok new := by
  cases hkey : s.cache.get? m.key with
  | none => exact ⟨true, by rw [register_of_new hkey]⟩
  | some n => exact ⟨false, by rw [register_of_taken hkey]⟩

/-- What serving comes to in each of these ways. -/
theorem Serves.eq {outcome : Except Stop Value × State} (h : Serves setting loader r s outcome) :
    setting.serve loader r s = outcome := by
  unfold serve
  simp only [Eval.bind_apply, Eval.get_apply]
  cases h with
  | cached found => simp only [found, Eval.pure_apply]
  | cycle fresh busy => simp only [fresh, busy, if_true, Eval.bind_apply, Eval.fail_apply]
  | failed fresh free load =>
    simp only [fresh, free, if_false, Eval.bind_apply, Eval.loading_apply, load]
  | @loaded v source t fresh free load =>
    simp only [fresh, free, if_false, Eval.bind_apply, Eval.loading_apply, load]
    obtain ⟨new, hnew⟩ := setting.register_fst loader.locate ⟨r.key, v, source⟩
      r.specifier t.pop
    rcases hregister : setting.register loader.locate ⟨r.key, v, source⟩ r.specifier t.pop with
      ⟨_ | _, u⟩
    · rw [hregister] at hnew
      cases hnew
    · rfl

/-- Serving ends in one of the ways listed. -/
theorem serves_serve : Serves setting loader r s (setting.serve loader r s) := by
  have of {outcome : Except Stop Value × State} (h : Serves setting loader r s outcome) :
      Serves setting loader r s (setting.serve loader r s) := h.eq ▸ h
  cases hcached : s.cache.get? r.key with
  | some m => exact of (.cached hcached)
  | none =>
    by_cases hbusy : r.key ∈ s.loading
    · exact of (.cycle hcached hbusy)
    · rcases hload : setting.loadModule loader r (s.push r.key) with ⟨_ | ⟨v, source⟩, t⟩
      · exact of (.failed hcached hbusy hload)
      · exact of (.loaded hcached hbusy hload)

/-- A module that was loaded is put into the cache, where its key is still new. -/
theorem serve_of_loaded {v : Value} {source : ModuleSource} (fresh : s.cache.get? r.key = none)
    (free : r.key ∉ s.loading)
    (load : setting.loadModule loader r (s.push r.key) = (.ok (v, source), t))
    (new : t.cache.get? r.key = none) :
    setting.serve loader r s = (.ok v, t.pop.adopt ⟨r.key, v, source⟩ r.specifier
      (setting.hookFile? loader.locate ⟨r.key, v, source⟩ r.specifier)) := by
  have hkey : t.pop.cache.get? (CachedModule.mk r.key v source).key = none := new
  rw [(Serves.loaded fresh free load).eq, register_of_new hkey]

/-- The ways in which serving a request can end are what it comes to. -/
theorem serves_iff {outcome : Except Stop Value × State} :
    Serves setting loader r s outcome ↔ setting.serve loader r s = outcome :=
  ⟨Serves.eq, fun h => h ▸ serves_serve⟩

end Setting

end ScriptBuild
