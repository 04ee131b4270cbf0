import ScriptBuild.Proofs.Import.Causes
import ScriptBuild.Proofs.Import.Relative
import ScriptBuild.Proofs.Resolution.Candidates

/-!
# Where a module is looked for

A request whose key is neither in the cache nor being loaded is answered by the first place that has
the module: the search directories, then the modules that are built in, then the templates. What
stands at an earlier place is the answer also if it fails. Main statement: `import_strategy`, which
says what the answer is in terms of the files that there are.
-/

namespace ScriptBuild

namespace Resolver

variable {fs : FileSystem} {cs : List Candidate} {spec : String} {file : Path}

/-- The files that a specifier may stand for when a file asks for it, in the order in which they are
tried. -/
def candidates (r : Resolver) (spec : String) (file : Path) : List Candidate :=
  let name := Specifier.parse spec
  if ! Specifier.isModuleName spec then []
  else if name.isRelative then r.relativeCandidates name file
  else r.searchCandidates name

/-- A specifier stands for the first of its candidates that is a file. -/
theorem path_resolve (r : Resolver) (fs : FileSystem) (spec : String) (file : Path) :
    (r.resolve fs spec (some file)).toOption.map (·.path) =
      (r.candidates spec file).findSome? fun c => fs.probe c.path := by
  rw [← firstFile_fst]
  unfold candidates
  cases hname : Specifier.isModuleName spec with
  | false =>
    rw [resolve_of_malformed hname]
    rfl
  | true =>
    by_cases hrelative : (Specifier.parse spec).isRelative = true
    · rw [resolve_of_relative hname hrelative, path_answer]
      simp [hrelative]
    · rw [resolve_of_qualified hname hrelative, path_answer]
      simp [hrelative]

/-- If no candidate of a name is a file, they are all reported. -/
theorem resolve_of_exhausted {r : Resolver} (hname : Specifier.isModuleName spec = true)
    (h : ∀ c ∈ r.candidates spec file, fs.probe c.path = none) :
    r.resolve fs spec (some file) =
      .error (.exhausted spec (some file) (r.candidates spec file)) := by
  have hall := firstFile_of_none fun c hc => FileSystem.probe_eq_none_iff.1 (h c hc)
  unfold candidates at hall ⊢
  by_cases hrelative : (Specifier.parse spec).isRelative = true
  · simp only [hname, hrelative, Bool.not_true, Bool.false_eq_true, if_false, if_true] at hall ⊢
    rw [resolve_of_relative hname hrelative, hall, answer]
  · simp only [hname, hrelative, Bool.not_true, Bool.false_eq_true, if_false] at hall ⊢
    rw [resolve_of_qualified hname hrelative, hall, answer]

end Resolver

namespace Setting

variable {setting : Setting} {r : Request} {s : State} {file : Path} {specifier : String}

/-- The files that the search directories have for a request, in the order in which they are tried.
There are none if the directories are not asked. -/
def candidates (setting : Setting) (r : Request) : List Candidate :=
  match r.origin with
  | none => []
  | some file => setting.resolver.candidates r.specifier file

/-- Why the search directories are not asked. -/
def skipReason (r : Request) : Option String :=
  if r.origin = none then some "requesting chunk was not loaded from a file"
  else if Specifier.isModuleName r.specifier then none
  else some (ResolutionError.malformed r.specifier).message

theorem skipReason_isSome (r : Request) :
    (skipReason r).isSome = true ↔
      r.origin = none ∨ Specifier.isModuleName r.specifier = false := by
  unfold skipReason
  by_cases horigin : r.origin = none
  · simp [horigin]
  · cases hname : Specifier.isModuleName r.specifier <;> simp [horigin]

/-- The search directories have a module: the first candidate that is a regular file is this one. -/
def Found (setting : Setting) (r : Request) (file : Path) : Prop :=
  ∃ before c after, setting.candidates r = before ++ c :: after ∧
    (∀ d ∈ before, setting.disk.isFile d.path = false) ∧
    setting.disk.isFile c.path = true ∧ setting.disk.canonicalize c.path = .ok file

/-- The templates have a module: the first candidate that is a regular file is this one. -/
def Hosted (setting : Setting) (specifier : String) (p : Path) : Prop :=
  ∃ before after, setting.templateCandidates specifier = before ++ p :: after ∧
    (∀ q ∈ before, setting.disk.isFile q = false) ∧ setting.disk.isFile p = true

/-- No place has the module. -/
structure Nowhere (setting : Setting) (r : Request) : Prop where
  unfound : ∀ c ∈ setting.candidates r, setting.disk.isFile c.path = false
  foreign : r.specifier ≠ "build" ∧ r.specifier ≠ "platform"
  unhosted : ∀ p ∈ setting.templateCandidates r.specifier, setting.disk.isFile p = false

/-- What the search directories lead to is the first candidate that is a file. -/
theorem resolved?_eq (setting : Setting) (r : Request) :
    setting.resolved? r = (setting.candidates r).findSome? fun c => setting.disk.probe c.path := by
  unfold resolved? candidates
  cases r.origin with
  | none => rfl
  | some file => exact Resolver.path_resolve _ _ _ _

theorem found_iff : setting.Found r file ↔ setting.resolved? r = some file := by
  rw [resolved?_eq, List.findSome?_eq_some_iff]
  simp only [Found, FileSystem.probe_eq_none_iff, FileSystem.probe_eq_some_iff]
  constructor
  · rintro ⟨before, c, after, hcs, hbefore, hc⟩
    exact ⟨before, c, after, hcs, hc, hbefore⟩
  · rintro ⟨before, c, after, hcs, hc, hbefore⟩
    exact ⟨before, c, after, hcs, hbefore, hc⟩

theorem unfound_iff :
    (∀ c ∈ setting.candidates r, setting.disk.isFile c.path = false) ↔
      setting.resolved? r = none := by
  simp only [resolved?_eq, List.findSome?_eq_none_iff, FileSystem.probe_eq_none_iff]

theorem hosted_iff {p : Path} :
    setting.Hosted specifier p ↔ setting.searchPath specifier = some p := by
  rw [searchPath, List.find?_eq_some_iff_append]
  simp only [Hosted, Bool.not_eq_true']
  constructor
  · rintro ⟨before, after, hps, hbefore, hp⟩
    exact ⟨hp, before, after, hps, hbefore⟩
  · rintro ⟨hp, before, after, hps, hbefore⟩
    exact ⟨before, after, hps, hbefore, hp⟩

theorem unhosted_iff :
    (∀ p ∈ setting.templateCandidates specifier, setting.disk.isFile p = false) ↔
      setting.searchPath specifier = none := by
  rw [searchPath, List.find?_eq_none]
  simp only [Bool.not_eq_true]

theorem foreign_iff :
    (specifier ≠ "build" ∧ specifier ≠ "platform") ↔ builtinModule? specifier = none := by
  unfold builtinModule?
  by_cases hbuild : specifier = "build"
  · simp [hbuild]
  · by_cases hplatform : specifier = "platform" <;> simp [hbuild, hplatform]

theorem nowhere_iff :
    setting.Nowhere r ↔ setting.resolved? r = none ∧ builtinModule? r.specifier = none ∧
      setting.searchPath r.specifier = none :=
  ⟨fun h => ⟨unfound_iff.1 h.unfound, foreign_iff.1 h.foreign, unhosted_iff.1 h.unhosted⟩,
    fun ⟨missing, foreign, unhosted⟩ =>
      ⟨unfound_iff.2 missing, foreign_iff.2 foreign, unhosted_iff.2 unhosted⟩⟩

/-- A request that the search directories have no file for is refused with all their candidates, or
with the reason why they are not asked. -/
theorem refusal_eq (missing : setting.resolved? r = none) :
    setting.refusal r = (setting.candidates r, skipReason r) := by
  unfold refusal skipReason
  rw [resolved?_eq, List.findSome?_eq_none_iff] at missing
  unfold candidates at missing ⊢
  cases horigin : r.origin with
  | none => rfl
  | some file =>
    rw [horigin] at missing
    cases hname : Specifier.isModuleName r.specifier with
    | false => simp [Resolver.resolve_of_malformed hname, Resolver.candidates, hname]
    | true => simp [Resolver.resolve_of_exhausted hname missing]

/-- The request is answered with the file that the search directories have: with what its script
comes to, or with its error, to whose chain the import is added. What the loader has of its own
plays no part. -/
structure AnsweredByFile (setting : Setting) (r : Request) (s : State) (file : Path) : Prop where
  ok : ∀ v t, setting.runFile setting.requireModule file
      ((s.push r.key).log (.entered ⟨file, r.specifier⟩)) = (.ok v, t) →
    setting.requireModule r s = (.ok v, (t.log (.left ⟨file, r.specifier⟩)).pop.adopt
      ⟨r.key, v, .resolved file⟩ r.specifier (some file))
  failed : ∀ e t, setting.runFile setting.requireModule file
      ((s.push r.key).log (.entered ⟨file, r.specifier⟩)) = (.error (.failed e), t) →
    setting.requireModule r s =
      (.error (.failed { e with chain := e.chain ++ [⟨file, r.specifier⟩] }), t.pop)
  overflow : ∀ t, setting.runFile setting.requireModule file
      ((s.push r.key).log (.entered ⟨file, r.specifier⟩)) = (.error .overflow, t) →
    setting.requireModule r s = (.error .overflow, t.pop)
  ends : ((setting.runFile setting.requireModule file)
    ((s.push r.key).log (.entered ⟨file, r.specifier⟩))).1 ≠ .error .tooDeep
  alone : ∀ own locate, setting.serve ⟨setting.runFile setting.requireModule, own, locate⟩ r s =
    setting.requireModule r s

/-- The request is answered with one of the loader's own modules: with what it comes to, or with its
error as it is. -/
structure AnsweredByOwn (setting : Setting) (r : Request) (s : State) (module : Eval Value) :
    Prop where
  ok : ∀ v t, module (s.push r.key) = (.ok v, t) →
    setting.requireModule r s = (.ok v, t.pop.adopt ⟨r.key, v, .runtime⟩ r.specifier
      (setting.templateFile? r.specifier))
  failed : ∀ e t, module (s.push r.key) = (.error (.failed e), t) →
    setting.requireModule r s = (.error (.failed e), t.pop)
  overflow : ∀ t, module (s.push r.key) = (.error .overflow, t) →
    setting.requireModule r s = (.error .overflow, t.pop)
  ends : (module (s.push r.key)).1 ≠ .error .tooDeep

/-- The error about a request for a module that is nowhere: the candidates in the search
directories or the reason why they were not asked, and the candidates under the templates. -/
def notFound (setting : Setting) (r : Request) : ModuleError :=
  .unresolved r.specifier r.origin (setting.candidates r) (skipReason r)
    ("\n".intercalate (s!"no built-in module '{r.specifier}'" ::
      (setting.templateCandidates r.specifier).map fun p => s!"no file '{p.text}'"))

/-- What a loader has of its own plays no part if the search directories lead to a file. -/
theorem serve_of_resolved (loader loader' : Loader) (hrun : loader'.run = loader.run)
    (found : setting.resolved? r = some file) (s : State) :
    setting.serve loader' r s = setting.serve loader r s := by
  have hload : ∀ u, setting.loadModule loader' r u = setting.loadModule loader r u := by
    intro u
    generalize hout : setting.loadModule loader r u = outcome
    cases loads_iff.2 hout with
    | resolved found' run => exact (Loads.resolved found' (hrun ▸ run)).eq
    | resolvedFailed found' run => exact (Loads.resolvedFailed found' (hrun ▸ run)).eq
    | resolvedStopped found' run final =>
      exact (Loads.resolvedStopped found' (hrun ▸ run) final).eq
    | own missing | ownFailed missing | unresolved missing => cases found.symm.trans missing
  generalize hout : setting.serve loader r s = outcome
  cases serves_iff.2 hout with
  | cached cached => exact (Serves.cached cached).eq
  | cycle fresh busy => exact (Serves.cycle fresh busy).eq
  | failed fresh free load => exact (Serves.failed fresh free ((hload _).trans load)).eq
  | loaded fresh free load =>
    -- Only the file of a module of the loader's own is located after the load.
    rw [(Serves.loaded fresh free ((hload _).trans load)).eq]
    cases loads_iff.2 load with
    | resolved => simp [register]
    | own missing => cases found.symm.trans missing

section Answers

variable (fresh : s.cache.get? r.key = none) (free : r.key ∉ s.loading)

include fresh free

/-- No load is stopped for its depth. -/
theorem load_ne_tooDeep (t : State) :
    setting.loadModule (setting.loader setting.requireModule) r (s.push r.key) ≠
      (.error .tooDeep, t) := by
  intro load
  have hdeep := (Serves.failed fresh free load).eq
  rw [← requireModule_eq] at hdeep
  exact setting.requireModule_ne_tooDeep r s (congrArg Prod.fst hdeep)

theorem answeredByFile (found : setting.resolved? r = some file) :
    setting.AnsweredByFile r s file where
  ok v t run := by
    have hbody : setting.Evolves (s.push r.key) t := (Evolves.entered _ found).trans
      ((Evolving.runFile setting.evolves_requireModule file).evolves run)
    rw [requireModule_eq, serve_of_loaded fresh free (Loads.resolved found run).eq
      (hbody.get?_of_push fresh)]
    exact congrArg (Prod.mk _) (Evolving.adopt_record (t.log (.left ⟨file, r.specifier⟩)) _ _ file)
  failed e t run := by
    rw [requireModule_eq]
    exact (Serves.failed fresh free (Loads.resolvedFailed found run).eq).eq
  overflow t run := by
    have final : Stop.Final .overflow := trivial
    rw [requireModule_eq]
    exact (Serves.failed fresh free (Loads.resolvedStopped found run final).eq).eq
  ends hdeep := by
    have final : Stop.Final .tooDeep := trivial
    exact load_ne_tooDeep fresh free _
      (Loads.resolvedStopped found (Prod.ext hdeep rfl) final).eq
  alone own locate := by
    rw [requireModule_eq]
    exact serve_of_resolved (setting.loader _) ⟨_, own, locate⟩ rfl found s

/-- A request for one of the loader's own modules stops as the module does. -/
theorem answered_of_stopped {module : Eval Value} {stop : Stop} {t : State}
    (missing : setting.resolved? r = none)
    (heq : setting.ownModule setting.requireModule r.specifier = OwnModule.loaded <$> module)
    (run : module (s.push r.key) = (.error stop, t)) :
    setting.requireModule r s = (.error stop, t.pop) := by
  have own : setting.ownModule setting.requireModule r.specifier (s.push r.key) =
      (.error stop, t) := by
    rw [heq]
    exact Eval.map_eq_error.2 run
  rw [requireModule_eq]
  exact (Serves.failed fresh free (Loads.ownFailed missing own).eq).eq

theorem answeredByOwn {module : Eval Value} (missing : setting.resolved? r = none)
    (heq : setting.ownModule setting.requireModule r.specifier = OwnModule.loaded <$> module) :
    setting.AnsweredByOwn r s module where
  ok v t run := by
    have own : setting.ownModule setting.requireModule r.specifier (s.push r.key) =
        (.ok (.loaded v), t) := by
      rw [heq]
      exact Eval.map_eq_ok.2 ⟨v, run, rfl⟩
    have hbody : setting.Evolves (s.push r.key) t :=
      (Evolving.ownModule setting.evolves_requireModule r.specifier).evolves own
    rw [requireModule_eq, serve_of_loaded fresh free (Loads.own missing own).eq
      (hbody.get?_of_push fresh)]
    rfl
  failed e t run := answered_of_stopped fresh free missing heq run
  overflow t run := answered_of_stopped fresh free missing heq run
  ends hdeep :=
    setting.requireModule_ne_tooDeep r s (congrArg Prod.fst
      (answered_of_stopped fresh free missing heq (Prod.ext hdeep rfl)))

/-- A request for a module that is nowhere fails and changes nothing. -/
theorem requireModule_of_nowhere (nowhere : setting.Nowhere r) :
    setting.requireModule r s = (.error (.failed (setting.notFound r)), s) := by
  obtain ⟨missing, foreign, unhosted⟩ := nowhere_iff.1 nowhere
  have own : setting.ownModule setting.requireModule r.specifier (s.push r.key) =
      (.ok (.notFound (setting.notFoundText r.specifier)), s.push r.key) :=
    ownModule_eq_notFound.2 ⟨foreign, unhosted, rfl, rfl⟩
  have hpop : (s.push r.key).pop = s := by
    simp [State.push, State.pop]
  rw [requireModule_eq, (Serves.failed fresh free (Loads.unresolved missing own).eq).eq, hpop,
    refusal_eq missing]
  rfl

end Answers

/-- An error about a module that is nowhere was made by a request for it. -/
theorem nowhere_of_creates {q : Request} {u : State} {specifier : String} {origin : Option Path}
    {tried : List Candidate} {skipped : Option String} {fallback : String}
    (h : setting.Creates q u (.unresolved specifier origin tried skipped fallback)) :
    u.cache.get? q.key = none ∧ q.key ∉ u.loading ∧ setting.Nowhere q ∧
      .unresolved specifier origin tried skipped fallback = (setting.notFound q).cause := by
  generalize hcause : ErrorCause.unresolved specifier origin tried skipped fallback = cause at h
  cases h with
  | cycle => cases hcause
  | unresolved fresh free missing foreign unhosted =>
    rw [refusal_eq missing]
    exact ⟨fresh, free, nowhere_iff.2 ⟨missing, foreign, unhosted⟩, rfl⟩

/-- A request whose key is neither in the cache nor being loaded is answered by the first place that
has its module. If the search directories are asked and have a file, that file is run and its error
is the answer, whatever the loader has of its own. Otherwise a module that is built in is the
answer, and then the first file under the templates. Otherwise the request fails with all the
candidates that there are, and with a reason in place of those in the search directories exactly if
these were not asked; nothing has changed then. One of these cases always holds, and an error about
a module that is nowhere is only ever made by a request for such a module, here or inside of the
loads. -/
theorem import_strategy (setting : Setting) (r : Request) (s : State)
    (fresh : s.cache.get? r.key = none) (free : r.key ∉ s.loading) :
    (∀ file, setting.Found r file → setting.AnsweredByFile r s file) ∧
    ((∀ file, ¬ setting.Found r file) →
      (∀ module, builtinModule? r.specifier = some module → setting.AnsweredByOwn r s module) ∧
      (builtinModule? r.specifier = none → ∀ p, setting.Hosted r.specifier p →
        setting.AnsweredByOwn r s (setting.runFile setting.requireModule p))) ∧
    (setting.Nowhere r →
      setting.requireModule r s = (.error (.failed (setting.notFound r)), s)) ∧
    ((skipReason r).isSome = true ↔
      r.origin = none ∨ Specifier.isModuleName r.specifier = false) ∧
    ((∃ file, setting.Found r file) ∨ (∃ module, builtinModule? r.specifier = some module) ∨
      (∃ p, setting.Hosted r.specifier p) ∨ setting.Nowhere r) ∧
    ∀ e t specifier origin tried skipped fallback,
      setting.requireModule r s = (.error (.failed e), t) →
      e.cause = .unresolved specifier origin tried skipped fallback →
      ∃ outer q u, setting.Within (Asking r s) outer ⟨some q, u⟩ ∧ u.cache.get? q.key = none ∧
        q.key ∉ u.loading ∧ setting.Nowhere q ∧ e.cause = (setting.notFound q).cause := by
  refine ⟨fun file found => answeredByFile fresh free (found_iff.1 found), fun unfound => ?_,
    requireModule_of_nowhere fresh free, skipReason_isSome r, ?_,
    fun e t specifier origin tried skipped fallback h hcause => ?_⟩
  · have missing : setting.resolved? r = none :=
      Option.eq_none_iff_forall_ne_some.2 fun file found => unfound file (found_iff.2 found)
    exact ⟨fun module builtin => answeredByOwn fresh free missing (ownModule_of_builtin builtin),
      fun foreign p hosted =>
        answeredByOwn fresh free missing (ownModule_of_template foreign (hosted_iff.1 hosted))⟩
  · cases hfound : setting.resolved? r with
    | some file => exact .inl ⟨file, found_iff.2 hfound⟩
    | none =>
      cases hbuiltin : builtinModule? r.specifier with
      | some module => exact .inr (.inl ⟨module, rfl⟩)
      | none =>
        cases hhosted : setting.searchPath r.specifier with
        | some p => exact .inr (.inr (.inl ⟨p, hosted_iff.2 hhosted⟩))
        | none => exact .inr (.inr (.inr (nowhere_iff.2 ⟨hfound, hbuiltin, hhosted⟩)))
  · obtain ⟨outer, q, u, hwithin, hcreates⟩ :=
      exists_creates_of_requireModule h (hcause ▸ trivial)
    rw [hcause] at hcreates
    obtain ⟨hfresh, hfree, hnowhere, heq⟩ := nowhere_of_creates hcreates
    exact ⟨outer, q, u, hwithin, hfresh, hfree, hnowhere, hcause.trans heq⟩

/-- A module in a search directory that fails is not replaced by a file under the templates. -/
theorem broken_module_stays :
    let disk := FileSystem.ofEntries ⟨"/"⟩
      [(⟨"/lib/m.t"⟩, .file (.text "return missing\n")), (⟨"/m.t"⟩, .file (.text "return 1\n"))]
    let setting : Setting := ⟨disk, ⟨[⟨"/lib"⟩], "t"⟩, defaultTemplates, .checked⟩
    let r : Request := ⟨"m", some ⟨"/main.t"⟩⟩
    State.empty.cache.get? r.key = none ∧ r.key ∉ State.empty.loading ∧
      setting.Hosted "m" ⟨"./m.t"⟩ ∧
      ∃ e t, setting.requireModule r .empty = (.error (.failed e), t) ∧
        e.chain = [⟨⟨"/lib/m.t"⟩, "m"⟩] := by
  intro disk setting r
  have fresh : State.empty.cache.get? r.key = none := rfl
  have free : r.key ∉ State.empty.loading := List.not_mem_nil
  have hosted : setting.Hosted "m" ⟨"./m.t"⟩ := hosted_iff.2 (by decide +kernel)
  have found : setting.Found r ⟨"/lib/m.t"⟩ := found_iff.2 (by decide +kernel)
  have hchain : (failure? (setting.runFile setting.requireModule ⟨"/lib/m.t"⟩
      ((State.empty.push r.key).log (.entered ⟨⟨"/lib/m.t"⟩, "m"⟩))).1).map (·.chain) =
        some [] := by
    decide +kernel
  have answered := (import_strategy setting r .empty fresh free).1 _ found
  obtain ⟨e, hfailed, hempty⟩ := Option.map_eq_some_iff.1 hchain
  refine ⟨fresh, free, hosted, _, _,
    answered.failed e _ (Prod.ext (eq_failed_of_failure? hfailed) rfl), ?_⟩
  show e.chain ++ [_] = _
  rw [hempty]
  rfl

end Setting

end ScriptBuild
