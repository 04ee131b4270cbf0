import ScriptBuild.FileSystem.Build
import ScriptBuild.Proofs.Import.Stack
import ScriptBuild.Proofs.Import.Strategy

/-!
# Who asks for a module

The file that asks for a module plays no part unless the specifier is relative to it. Main statement:
`qualified_import_ignores_asker`. A module may therefore be kept under its specifier alone, whichever
file asked for it first.
-/

namespace ScriptBuild

namespace Setting

variable {setting : Setting} {spec : String} {s t : State} {v : Value}

section Qualified

variable (qualified : Specifier.isRelative spec = false) (file file' : Path)

include qualified

/-- The candidates of a specifier that is not relative are those in the search directories. -/
theorem candidates_of_qualified (setting : Setting) :
    setting.candidates ⟨spec, some file'⟩ = setting.candidates ⟨spec, some file⟩ := by
  show setting.resolver.candidates spec file' = setting.resolver.candidates spec file
  simp [Resolver.candidates, Specifier.isRelative_iff, qualified]

theorem resolved?_of_qualified (setting : Setting) :
    setting.resolved? ⟨spec, some file'⟩ = setting.resolved? ⟨spec, some file⟩ := by
  rw [resolved?_eq, resolved?_eq, setting.candidates_of_qualified qualified file file']

/-- What the search directories say to a request that they have no file for. -/
theorem refusal_of_qualified (missing : setting.resolved? ⟨spec, some file⟩ = none) :
    setting.refusal ⟨spec, some file'⟩ = setting.refusal ⟨spec, some file⟩ := by
  have missing' := (setting.resolved?_of_qualified qualified file file').trans missing
  rw [refusal_eq missing, refusal_eq missing', setting.candidates_of_qualified qualified file file']
  rfl

theorem key_of_asker : Request.key ⟨spec, some file'⟩ = Request.key ⟨spec, some file⟩ :=
  (Request.key_of_qualified (r := ⟨spec, some file'⟩) qualified).trans
    (Request.key_of_qualified (r := ⟨spec, some file⟩) qualified).symm

end Qualified

/-- What two files get that ask for one specifier: the same outcome in the same state, but that the
error about a module that is nowhere names the file that asked. -/
inductive SameAnswer {α : Type} (spec : String) (file file' : Path) :
    Except Stop α × State → Except Stop α × State → Prop where
  | same (x : Except Stop α × State) : SameAnswer spec file file' x x
  | unresolved (tried : List Candidate) (skipped : Option String) (fallback : String) (t : State) :
      SameAnswer spec file file'
        (.error (.failed (.unresolved spec (some file) tried skipped fallback)), t)
        (.error (.failed (.unresolved spec (some file') tried skipped fallback)), t)

theorem SameAnswer.of_eq {α : Type} {file file' : Path} {x y : Except Stop α × State} (h : y = x) :
    SameAnswer spec file file' x y := by
  rw [h]
  exact .same x

/-- Loading a module comes to the same, whichever file asks for it. -/
theorem loadModule_of_asker (loader : Loader) (qualified : Specifier.isRelative spec = false)
    (file file' : Path) (s : State) :
    SameAnswer spec file file' (setting.loadModule loader ⟨spec, some file⟩ s)
      (setting.loadModule loader ⟨spec, some file'⟩ s) := by
  have hresolved := setting.resolved?_of_qualified qualified file file'
  generalize hout : setting.loadModule loader ⟨spec, some file⟩ s = outcome
  cases loads_iff.2 hout with
  | resolved found run => exact .of_eq (Loads.resolved (hresolved.trans found) run).eq
  | resolvedFailed found run =>
    exact .of_eq (Loads.resolvedFailed (hresolved.trans found) run).eq
  | resolvedStopped found run final =>
    exact .of_eq (Loads.resolvedStopped (hresolved.trans found) run final).eq
  | own missing own => exact .of_eq (Loads.own (hresolved.trans missing) own).eq
  | ownFailed missing own => exact .of_eq (Loads.ownFailed (hresolved.trans missing) own).eq
  | unresolved missing own =>
    rw [(Loads.unresolved (hresolved.trans missing) own).eq,
      refusal_of_qualified qualified file file' missing]
    exact .unresolved _ _ _ _

/-- Serving a request comes to the same, whichever file asks. -/
theorem serve_of_asker (loader : Loader) (qualified : Specifier.isRelative spec = false)
    (file file' : Path) (s : State) :
    SameAnswer spec file file' (setting.serve loader ⟨spec, some file⟩ s)
      (setting.serve loader ⟨spec, some file'⟩ s) := by
  have hkey := key_of_asker qualified file file'
  have hload := @loadModule_of_asker setting spec loader qualified file file'
    (s.push (Request.key ⟨spec, some file⟩))
  generalize hout : setting.serve loader ⟨spec, some file⟩ s = outcome
  generalize hload' : setting.loadModule loader ⟨spec, some file'⟩ _ = loaded at hload
  rw [← hkey] at hload'
  cases serves_iff.2 hout with
  | cached found => exact .of_eq (Serves.cached (hkey.symm ▸ found)).eq
  | cycle fresh busy =>
    rw [← hkey] at fresh busy ⊢
    exact .of_eq (Serves.cycle fresh busy).eq
  | failed fresh free load =>
    rw [load] at hload
    rw [← hkey] at fresh free
    cases hload with
    | same => exact .of_eq (Serves.failed fresh free hload').eq
    | unresolved =>
      rw [(Serves.failed fresh free hload').eq]
      exact .unresolved _ _ _ _
  | loaded fresh free load =>
    rw [load] at hload
    rw [← hkey] at fresh free ⊢
    cases hload with
    | same => exact .of_eq (Serves.loaded fresh free hload').eq

/-- A request that is answered has the answer in the cache. -/
theorem get?_of_requireModule {r : Request} (h : setting.requireModule r s = (.ok v, t)) :
    ∃ m, t.cache.get? r.key = some m ∧ m.value = v := by
  cases hcached : s.cache.get? r.key with
  | some m =>
    rw [requireModule_eq, (Serves.cached hcached).eq] at h
    cases h
    exact ⟨m, hcached, rfl⟩
  | none =>
    obtain ⟨source, u, _, hregister⟩ := (setting.disciplined r s).registered v t hcached h
    refine ⟨⟨r.key, v, source⟩, ?_, rfl⟩
    cases hkey : u.pop.cache.get? r.key with
    | some taken =>
      rw [register_of_taken hkey] at hregister
      cases hregister
    | none =>
      rw [register_of_new hkey] at hregister
      cases hregister
      have hnew : u.pop.cache.register? ⟨r.key, v, source⟩ =
          some (u.pop.cache ++ [⟨r.key, v, source⟩]) := by
        simp [Cache.register?, hkey]
      exact Cache.get?_register hnew

/-- A request for a specifier that is not relative comes to the same whichever file asks, in whatever
state: the same value, or the same error, and the same state. Only an error about a module that is
nowhere tells the files apart, and only if it is the module that was asked for; all else in it is the
same. The key is the specifier for both, and rightly so: what one of them was answered is what the
other one would have been, and what it gets from then on out of the cache, without a change. -/
theorem qualified_import_ignores_asker (setting : Setting) {spec : String}
    (qualified : Specifier.isRelative spec = false) (file file' : Path) (s : State) :
    Request.key ⟨spec, some file⟩ = spec ∧ Request.key ⟨spec, some file'⟩ = spec ∧
    SameAnswer spec file file' (setting.requireModule ⟨spec, some file⟩ s)
      (setting.requireModule ⟨spec, some file'⟩ s) ∧
    ∀ v t, setting.requireModule ⟨spec, some file⟩ s = (.ok v, t) →
      setting.requireModule ⟨spec, some file'⟩ s = (.ok v, t) ∧
      setting.requireModule ⟨spec, some file'⟩ t = (.ok v, t) := by
  have hsame : SameAnswer spec file file' (setting.requireModule ⟨spec, some file⟩ s)
      (setting.requireModule ⟨spec, some file'⟩ s) := by
    rw [requireModule_eq, requireModule_eq]
    exact serve_of_asker _ qualified file file' s
  refine ⟨Request.key_of_qualified qualified, Request.key_of_qualified qualified, hsame,
    fun v t h => ⟨?_, ?_⟩⟩
  · rw [h] at hsame
    generalize setting.requireModule ⟨spec, some file'⟩ s = outcome at hsame
    cases hsame with
    | same => rfl
  · obtain ⟨m, found, rfl⟩ := get?_of_requireModule h
    rw [← key_of_asker qualified file file'] at found
    rw [requireModule_eq]
    exact (Serves.cached found).eq

/-- Two files in different directories, each with a module of that name beside it, get one table. -/
theorem module_shared_by_askers :
    let disk := FileSystem.ofEntries ⟨"/"⟩
      [(⟨"/lib/m.t"⟩, .file (.text "return { x = 1 }\n")),
        (⟨"/a/m.t"⟩, .file (.text "return 2\n")), (⟨"/b/m.t"⟩, .file (.text "return 3\n"))]
    let setting : Setting := ⟨disk, ⟨[⟨"/lib"⟩], "t"⟩, defaultTemplates, .checked⟩
    Specifier.isRelative "m" = false ∧
      ∃ v t, setting.requireModule ⟨"m", some ⟨"/a/x.t"⟩⟩ .empty = (.ok v, t) ∧
        setting.requireModule ⟨"m", some ⟨"/b/y.t"⟩⟩ .empty = (.ok v, t) ∧
        setting.requireModule ⟨"m", some ⟨"/b/y.t"⟩⟩ t = (.ok v, t) := by
  intro disk setting
  have qualified : Specifier.isRelative "m" = false := by decide +kernel
  have hok : (setting.requireModule ⟨"m", some ⟨"/a/x.t"⟩⟩ .empty).1.toOption.isSome = true := by
    decide +kernel
  rcases hout : setting.requireModule ⟨"m", some ⟨"/a/x.t"⟩⟩ .empty with ⟨e | v, t⟩
  · rw [hout] at hok
    cases hok
  · obtain ⟨_, _, _, shared⟩ :=
      qualified_import_ignores_asker setting qualified ⟨"/a/x.t"⟩ ⟨"/b/y.t"⟩ .empty
    obtain ⟨hother, hlater⟩ := shared v t hout
    exact ⟨qualified, v, t, rfl, hother, hlater⟩

end Setting

end ScriptBuild
