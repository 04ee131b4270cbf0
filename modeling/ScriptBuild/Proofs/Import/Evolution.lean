import ScriptBuild.Proofs.Evaluation.Congruence
import ScriptBuild.Proofs.Evaluation.Include
import ScriptBuild.Proofs.Import.Running
import ScriptBuild.Proofs.Import.Serving

/-!
# How evaluations change the state

The changes that running scripts makes to the shared state, in big steps: the primitive ones, one
after the other, and whole loads, with what happened while the key was on the stack as their body.
Main statement: `evolves_require` says that serving a request makes no other changes, whether it
succeeds or fails and however deep requests are nested. What holds of every evolution is proved by
induction on it.
-/

namespace ScriptBuild

open Script (Builtin Chunk)

namespace Setting

/-- Where the module that answers a request comes from. The history is the one at the end of its
load. -/
inductive Provides (setting : Setting) (r : Request) (history : List Event) :
    ModuleSource → Prop where
  /-- The search directories led to a file, and it was read. -/
  | resolved {file : Path} (found : setting.resolved? r = some file)
      (text : setting.disk.IsText file) (read : .read file ∈ history) :
      Provides setting r history (.resolved file)
  /-- The templates led to a file, and it was read. -/
  | hosted {p : Path} {loc : Location} {source : String} (missing : setting.resolved? r = none)
      (foreign : builtinModule? r.specifier = none)
      (searched : setting.searchPath r.specifier = some p)
      (text : setting.disk.readFile p = .ok (loc, source)) (read : .read loc.toPath ∈ history) :
      Provides setting r history .runtime
  /-- The module is built in. -/
  | builtIn {module : Eval Value} (missing : setting.resolved? r = none)
      (builtin : builtinModule? r.specifier = some module) : Provides setting r history .runtime

/-- The file that is recorded for a module of that source. -/
def recordedFile? (setting : Setting) (source : ModuleSource) (specifier : String) :
    Option Path :=
  match source with
  | .resolved file => some file
  | .runtime => setting.templateFile? specifier

/-- The changes that running scripts makes to the shared state. -/
inductive Evolves (setting : Setting) : State → State → Prop where
  | refl (s : State) : Evolves setting s s
  | trans {s t u : State} (first : Evolves setting s t) (next : Evolves setting t u) :
      Evolves setting s u
  | counted (s : State) : Evolves setting s { s with nextInstance := s.nextInstance + 1 }
  | exported (s : State) (name : String) (c : Constant) :
      Evolves setting s { s with exports := s.exports.define name c }
  | linked (s : State) (flags : List String) : Evolves setting s (s.inject [] flags)
  /-- Constants were imported from these headers. -/
  | imported (s : State) {files : List Path} (texts : ∀ p ∈ files, setting.disk.IsText p) :
      Evolves setting s
        ({ s with dependencies := s.dependencies ++ files }.log (.headers files))
  | read (s : State) {p : Path} {loc : Location} {source : String}
      (text : setting.disk.readFile p = .ok (loc, source)) :
      Evolves setting s (s.log (.read loc.toPath))
  | entered (s : State) {r : Request} {file : Path} (found : setting.resolved? r = some file) :
      Evolves setting s (s.log (.entered ⟨file, r.specifier⟩))
  | left (s : State) {r : Request} {file : Path} (found : setting.resolved? r = some file) :
      Evolves setting s (s.log (.left ⟨file, r.specifier⟩))
  /-- A load failed. -/
  | abandoned {s t : State} {key : String} (fresh : s.cache.get? key = none)
      (free : key ∉ s.loading) (body : Evolves setting (s.push key) t) : Evolves setting s t.pop
  /-- A load led to a module, which was put into the cache. -/
  | completed {s t : State} {r : Request} (v : Value) {source : ModuleSource}
      (fresh : s.cache.get? r.key = none) (free : r.key ∉ s.loading)
      (body : Evolves setting (s.push r.key) t) (origin : setting.Provides r t.history source) :
      Evolves setting s (t.pop.adopt ⟨r.key, v, source⟩ r.specifier
        (setting.recordedFile? source r.specifier))

variable {setting : Setting} {s t : State}

/-- The second search after a load finds the file that was read. -/
theorem templateFile?_of_readFile {specifier source : String} {q : Path} {loc : Location}
    (searched : setting.searchPath specifier = some q)
    (text : setting.disk.readFile q = .ok (loc, source)) :
    setting.templateFile? specifier = some loc.toPath := by
  rw [templateFile?, ownFile?, searched, Option.bind_some, FileSystem.canonicalize,
    (FileSystem.readFile_eq_ok.1 text).1]
  rfl

namespace Evolves

/-- Loads end as they began: the keys being loaded are the same. -/
theorem loading_eq (h : setting.Evolves s t) : t.loading = s.loading := by
  induction h with
  | refl | counted | exported | linked | imported | read | entered | left => rfl
  | trans _ _ ih₁ ih₂ => exact ih₂.trans ih₁
  | abandoned _ _ _ ih | completed _ _ _ _ _ ih =>
    show List.dropLast _ = _
    rw [ih]
    exact List.dropLast_concat

/-- No script changes the flags for importing constants. -/
theorem cFlags_eq (h : setting.Evolves s t) : t.cFlags = s.cFlags := by
  induction h with
  | refl | counted | exported | imported | read | entered | left => rfl
  | trans _ _ ih₁ ih₂ => exact ih₂.trans ih₁
  | linked => exact List.append_nil _
  | abandoned _ _ _ ih | completed _ _ _ _ _ ih => exact ih

/-- Modules are added to the cache, under keys that were not being loaded. -/
theorem cache_eq (h : setting.Evolves s t) :
    ∃ more, t.cache = s.cache ++ more ∧ ∀ m ∈ more, m.key ∉ s.loading := by
  induction h with
  | refl | counted | exported | linked | imported | read | entered | left =>
    exact ⟨[], (List.append_nil _).symm, fun m hm => absurd hm List.not_mem_nil⟩
  | trans first _ ih₁ ih₂ =>
    obtain ⟨before, hbefore, hfree⟩ := ih₁
    obtain ⟨after, hafter, hfree'⟩ := ih₂
    refine ⟨before ++ after, by rw [hafter, hbefore, List.append_assoc], fun m hm => ?_⟩
    rcases List.mem_append.1 hm with hm | hm
    · exact hfree m hm
    · rw [← first.loading_eq]
      exact hfree' m hm
  | abandoned _ _ _ ih =>
    obtain ⟨more, hmore, hfree⟩ := ih
    exact ⟨more, hmore, fun m hm hin => hfree m hm (List.mem_append_left _ hin)⟩
  | @completed s t r v source _ free _ _ ih =>
    obtain ⟨more, hmore, hfree⟩ := ih
    refine ⟨more ++ [⟨r.key, v, source⟩], ?_, fun m hm => ?_⟩
    · show t.cache ++ [_] = _
      rw [hmore, List.append_assoc]
      rfl
    · rcases List.mem_append.1 hm with hm | hm
      · exact fun hin => hfree m hm (List.mem_append_left _ hin)
      · rw [List.mem_singleton.1 hm]
        exact free

/-- A module in the cache stays there. -/
theorem get?_of_get? (h : setting.Evolves s t) {key : String} {m : CachedModule Value}
    (found : s.cache.get? key = some m) : t.cache.get? key = some m := by
  obtain ⟨more, hmore, _⟩ := h.cache_eq
  rw [hmore]
  exact Cache.get?_append found more

/-- A key that is being loaded is put into the cache only by its own load. -/
theorem get?_of_loading (h : setting.Evolves s t) {key : String} (busy : key ∈ s.loading)
    (fresh : s.cache.get? key = none) : t.cache.get? key = none := by
  obtain ⟨more, hmore, hfree⟩ := h.cache_eq
  rw [Cache.get?] at fresh
  rw [hmore, Cache.get?, List.find?_append, fresh, Option.none_or, List.find?_eq_none]
  intro m hm heq
  exact hfree m hm (beq_iff_eq.1 heq ▸ busy)

/-- At the end of a load its key is as new as it was. -/
theorem get?_of_push {key : String} (h : setting.Evolves (s.push key) t)
    (fresh : s.cache.get? key = none) : t.cache.get? key = none :=
  h.get?_of_loading (s.mem_push key) fresh

/-- What was done stays in the history. -/
theorem history_grows (h : setting.Evolves s t) : s.history <+: t.history := by
  induction h with
  | refl | counted | exported | linked => exact List.prefix_rfl
  | imported | read | entered | left => exact List.prefix_append _ _
  | trans _ _ ih₁ ih₂ => exact ih₁.trans ih₂
  | abandoned _ _ _ ih => exact ih
  | completed _ _ _ _ _ ih => exact ih.trans (List.prefix_append _ _)

/-- What was recorded stays recorded. -/
theorem dependencies_grow (h : setting.Evolves s t) : s.dependencies <+: t.dependencies := by
  induction h with
  | refl | counted | exported | linked | read | entered | left => exact List.prefix_rfl
  | imported => exact List.prefix_append _ _
  | trans _ _ ih₁ ih₂ => exact ih₁.trans ih₂
  | abandoned _ _ _ ih => exact ih
  | completed _ _ _ _ _ ih => exact ih.trans (List.prefix_append _ _)

end Evolves

/-- A change of the state that scripts make, if the requests in them do, and that is made again by
making it twice. -/
structure Change (setting : Setting) (S : State → State → Prop) : Prop where
  refl : ∀ s, S s s
  trans : ∀ {s t u}, S s t → S t u → S s u
  counted : ∀ s : State, S s { s with nextInstance := s.nextInstance + 1 }
  exported : ∀ (s : State) name c, S s { s with exports := s.exports.define name c }
  linked : ∀ (s : State) flags, S s (s.inject [] flags)
  imported : ∀ (s : State) {files : List Path}, (∀ p ∈ files, setting.disk.IsText p) →
    S s ({ s with dependencies := s.dependencies ++ files }.log (.headers files))
  read : ∀ (s : State) {p : Path} {loc : Location} {source : String},
    setting.disk.readFile p = .ok (loc, source) → S s (s.log (.read loc.toPath))

namespace Change

variable {S : State → State → Prop} (hS : setting.Change S) {serve : Request → Eval Value}

include hS

theorem congruence : Eval.Congruence fun _ x _ => Eval.Makes S x :=
  .of_change hS.refl hS.trans hS.counted hS.exported hS.linked

theorem bind {α β : Type} {x : Eval α} {f : α → Eval β} (hx : Eval.Makes S x)
    (hf : ∀ a, Eval.Makes S (f a)) : Eval.Makes S (x >>= f) :=
  @Eval.Congruence.sequence _ hS.congruence α β x x f f hx hf

theorem map {α β : Type} {x : Eval α} (hx : Eval.Makes S x) (f : α → β) :
    Eval.Makes S (f <$> x) :=
  @Eval.Congruence.map _ hS.congruence α β x x hx f

theorem importConstants {f : Frame} (hf : f.setting = setting) (function : Builtin)
    (directories : List Path) (target : String) :
    Eval.Makes S (f.importConstants function directories target) := by
  intro s
  rcases hscan : f.scan function directories target with (e | _) | scan
  · rw [Frame.importConstants_of_error hscan]
    exact hS.refl s
  · rw [Frame.importConstants_of_overflow hscan]
    exact hS.refl s
  · rw [Frame.importConstants_of_scan hscan]
    have htexts := Frame.isText_of_scan hscan
    rw [hf] at htexts
    exact hS.trans (hS.imported s htexts) (hS.counted _)

/-- A chunk makes the change, if its requests do. -/
theorem execute (hserve : ∀ r, Eval.Makes S (serve r)) (c : Chunk) :
    Eval.Makes S (setting.execute serve c) :=
  @Eval.Congruence.execute _ hS.congruence setting setting serve serve c
    (fun _ hf function directories target => hS.importConstants hf function directories target)
    fun specifier _ => hserve ⟨specifier, c.origin⟩

theorem load (p : Path) : Eval.Makes S (setting.load p) := by
  intro s
  rcases hread : setting.disk.readFile p with cause | ⟨loc, source⟩
  · rw [load_of_error hread]
    exact hS.refl s
  · rw [load_of_text hread]
    split <;> exact hS.read s hread

theorem runFile (hserve : ∀ r, Eval.Makes S (serve r)) (p : Path) :
    Eval.Makes S (setting.runFile serve p) :=
  hS.bind (hS.load p) fun c => hS.execute hserve c

theorem ownModule (hserve : ∀ r, Eval.Makes S (serve r)) (specifier : String) :
    Eval.Makes S (setting.ownModule serve specifier) :=
  @Eval.Congruence.ownModule _ hS.congruence setting serve serve specifier (hS.runFile hserve)

end Change

/-- Whatever comes of a computation, it changes the state only as running scripts does. -/
def Evolving (setting : Setting) ⦃α : Type⦄ (x : Eval α) : Prop :=
  ∀ s, setting.Evolves s (x s).2

namespace Evolving

theorem evolves {α : Type} {x : Eval α} (hx : setting.Evolving x) {outcome : Except Stop α}
    (h : x s = (outcome, t)) : setting.Evolves s t :=
  Eval.Makes.change hx h

theorem change (setting : Setting) : setting.Change setting.Evolves :=
  ⟨.refl, .trans, .counted, .exported, .linked, .imported, .read⟩

theorem bind {α β : Type} {x : Eval α} {f : α → Eval β} (hx : setting.Evolving x)
    (hf : ∀ a, setting.Evolving (f a)) : setting.Evolving (x >>= f) :=
  (change setting).bind hx hf

/-- What is put together of computations that change the state as running scripts does is such a
computation. -/
theorem congruence (setting : Setting) :
    Eval.Congruence fun _ x _ => setting.Evolving x :=
  (change setting).congruence

theorem importConstants {f : Frame} (hf : f.setting = setting) (function : Builtin)
    (directories : List Path) (target : String) :
    setting.Evolving (f.importConstants function directories target) :=
  (change setting).importConstants hf function directories target

variable {serve : Request → Eval Value}

theorem load (p : Path) : setting.Evolving (setting.load p) :=
  (change setting).load p

theorem runFile (hserve : ∀ r, setting.Evolving (serve r)) (p : Path) :
    setting.Evolving (setting.runFile serve p) :=
  (change setting).runFile hserve p

theorem ownModule (hserve : ∀ r, setting.Evolving (serve r)) (specifier : String) :
    setting.Evolving (setting.ownModule serve specifier) :=
  (change setting).ownModule hserve specifier

/-- The history of a file that was run to its end says that it was read. -/
theorem read_of_runFile (hserve : ∀ r, setting.Evolving (serve r)) {p : Path} {v : Value}
    (h : setting.runFile serve p s = (.ok v, t)) :
    ∃ loc source, setting.disk.readFile p = .ok (loc, source) ∧ .read loc.toPath ∈ t.history := by
  obtain ⟨loc, source, c, hread, _, hrun⟩ := runFile_eq_ok.1 h
  refine ⟨loc, source, hread, ?_⟩
  have hbody := ((change setting).execute hserve c).change hrun
  exact hbody.history_grows.subset (List.mem_append_right _ (List.mem_singleton_self _))

/-- The load of a module that is put into the cache. -/
theorem loadModule (hserve : ∀ r, setting.Evolving (serve r)) {r : Request} {v : Value}
    {source : ModuleSource} {u : State}
    (h : setting.loadModule (setting.loader serve) r s = (.ok (v, source), u)) :
    ∃ t, setting.Evolves s t ∧ setting.Provides r t.history source ∧
      match source with
      | .resolved file => u = t.record file
      | .runtime => u = t := by
  cases loads_iff.2 h with
  | @resolved file _ t found run =>
    have hbody := (runFile hserve file).evolves run
    obtain ⟨loc, source, hread, hin⟩ := read_of_runFile hserve run
    have hcanonical : loc.toPath = file :=
      FileSystem.toPath_of_readFile (canonicalize_of_resolved found) hread
    refine ⟨t.log (.left ⟨file, r.specifier⟩), ?_, ?_, rfl⟩
    · exact ((Evolves.entered s found).trans hbody).trans (.left t found)
    · refine .resolved found ?_ ?_
      · exact hcanonical ▸ FileSystem.isText_of_readFile hread
      · exact List.mem_append_left _ (hcanonical ▸ hin)
  | own missing own =>
    refine ⟨u, (ownModule hserve r.specifier).evolves own, ?_, rfl⟩
    rcases ownModule_eq_loaded.1 own with ⟨module, hbuiltin, _⟩ | ⟨hforeign, p, hsearch, hrun⟩
    · exact .builtIn missing hbuiltin
    · obtain ⟨loc, source, hread, hin⟩ := read_of_runFile hserve hrun
      exact .hosted missing hforeign hsearch hread hin

/-- A load that fails. -/
theorem loadModule_error (hserve : ∀ r, setting.Evolving (serve r)) {r : Request} {e : Stop}
    {t : State} (h : setting.loadModule (setting.loader serve) r s = (.error e, t)) :
    setting.Evolves s t := by
  cases loads_iff.2 h with
  | @resolvedFailed file _ _ found run | @resolvedStopped file _ _ found run =>
    exact (Evolves.entered s found).trans ((runFile hserve file).evolves run)
  | ownFailed _ own | unresolved _ own =>
    exact (ownModule hserve r.specifier).evolves own

theorem adopt_record (s : State) (m : CachedModule Value) (specifier : String) (file : Path) :
    (s.record file).pop.adopt m specifier none = s.pop.adopt m specifier (some file) := by
  simp [State.record, State.pop, State.adopt]

/-- Serving a request changes the state only as running scripts does, if the requests of the script
that it leads to do. -/
theorem serving (hserve : ∀ r, setting.Evolving (serve r)) (r : Request) :
    setting.Evolving (setting.serve (setting.loader serve) r) := by
  intro s
  have h := @serves_serve setting (setting.loader serve) r s
  generalize setting.serve (setting.loader serve) r s = outcome at h ⊢
  cases h with
  | cached | cycle => exact .refl s
  | @failed e t fresh free load =>
    exact .abandoned fresh free (loadModule_error hserve load)
  | @loaded v source u fresh free load =>
    obtain ⟨t, hbody, horigin, hu⟩ := loadModule hserve load
    have hfresh := hbody.get?_of_push fresh
    have hdone := Evolves.completed v fresh free hbody horigin
    cases source with
    | resolved file =>
      rw [hu, register_of_new hfresh]
      exact (adopt_record t _ _ file).symm ▸ hdone
    | runtime =>
      rw [hu, register_of_new hfresh]
      exact hdone

end Evolving

/-- Serving a request changes the state only as running scripts does. -/
theorem evolves_require (setting : Setting) (n : Nat) (r : Request) :
    setting.Evolving (setting.require n r) := by
  induction n generalizing r with
  | zero => exact fun s => .refl s
  | succ n ih => exact Evolving.serving ih r

theorem evolves_requireModule (setting : Setting) (r : Request) :
    setting.Evolving (setting.requireModule r) :=
  setting.evolves_require _ r

theorem evolves_runChunk (setting : Setting) (c : Chunk) : setting.Evolving (setting.runChunk c) :=
  (Evolving.change setting).execute (setting.evolves_require _) c

theorem evolves_importOwn (setting : Setting) (specifier : String) :
    setting.Evolving (setting.importOwn specifier) :=
  Evolving.ownModule (setting.evolves_require _) specifier

end Setting

end ScriptBuild
