import ScriptBuild.FileSystem.Build
import ScriptBuild.Proofs.Evaluation.Blame
import ScriptBuild.Proofs.Import.Overflow
import ScriptBuild.Proofs.Import.Unfolding

/-!
# Requests inside of requests

Loading a module runs a script, whose requests load other modules. `Setting.During` is the moments
of one load, and `Setting.Within` follows it into the loads of the requests made in them. Main
statement: `imports_end`. Serving a request ends in a value or an error of a module, it is the
recursion through the loads that it is written as, and no chain of nested requests goes on for ever:
each load takes a key that was free, and only so many can be asked for.
-/

namespace ScriptBuild

open Script (Action Chunk Expr Statement)

/-- The same keys are being loaded, and none of them was put into the cache. -/
structure State.Steady (s t : State) : Prop where
  loading_eq : t.loading = s.loading
  fresh : ∀ key ∈ s.loading, s.cache.get? key = none → t.cache.get? key = none

namespace Setting

variable {setting : Setting} {r q : Request} {s t : State} {m : Moment}

theorem Evolves.steady (h : setting.Evolves s t) : s.Steady t :=
  ⟨h.loading_eq, fun _ => h.get?_of_loading⟩

/-- The moments of running a chunk. -/
def ChunkPasses (setting : Setting) (c : Chunk) : State → Moment → Prop :=
  Frame.PassesRun ⟨setting, setting.requireModule, c.origin, [], .start⟩ c.statements

/-- The moments of running the script of a file: it is read, and its chunk is run. -/
inductive FilePasses (setting : Setting) (p : Path) (s : State) : Moment → Prop where
  | started : FilePasses setting p s ⟨none, s⟩
  | read : FilePasses setting p s ⟨none, (setting.load p s).2⟩
  | run {c : Chunk} {t : State} {m : Moment} (loaded : setting.load p s = (.ok c, t))
      (inner : setting.ChunkPasses c t m) : FilePasses setting p s m

/-- The moments of looking a specifier up among the modules of the loader. -/
inductive OwnPasses (setting : Setting) (specifier : String) (s : State) : Moment → Prop where
  | started : OwnPasses setting specifier s ⟨none, s⟩
  | hosted {p : Path} {m : Moment} (foreign : builtinModule? specifier = none)
      (searched : setting.searchPath specifier = some p) (inner : setting.FilePasses p s m) :
      OwnPasses setting specifier s m

/-- The moments of loading the module that a request asks for. Its key is on the stack. -/
inductive LoadPasses (setting : Setting) (r : Request) (s : State) : Moment → Prop where
  | resolved {file : Path} {m : Moment} (found : setting.resolved? r = some file)
      (inner : setting.FilePasses file (s.log (.entered ⟨file, r.specifier⟩)) m) :
      LoadPasses setting r s m
  | own {m : Moment} (missing : setting.resolved? r = none)
      (inner : setting.OwnPasses r.specifier s m) : LoadPasses setting r s m
  | ended : LoadPasses setting r s
      ⟨none, (setting.loadModule (setting.loader setting.requireModule) r s).2⟩

/-- The moments of serving a request in which its module is being loaded. There are none unless its
key is neither in the cache nor on the stack. -/
structure During (setting : Setting) (r : Request) (s : State) (m : Moment) : Prop where
  fresh : s.cache.get? r.key = none
  free : r.key ∉ s.loading
  passes : setting.LoadPasses r (s.push r.key) m

/-- Moments, and those inside of the loads of the requests made in them, and so on. The list is the
requests that are being loaded, the innermost last. -/
inductive Within (setting : Setting) (top : Moment → Prop) : List Request → Moment → Prop where
  | direct {m : Moment} (passed : top m) : Within setting top [] m
  | nested {outer : List Request} {r : Request} {s : State} {m : Moment}
      (asked : Within setting top outer ⟨some r, s⟩) (during : setting.During r s m) :
      Within setting top (outer ++ [r]) m

/-- The moment of a request and nothing else. -/
def Asking (r : Request) (s : State) : Moment → Prop :=
  (· = ⟨some r, s⟩)

/-- The second request is made while the module of the first one is being loaded. -/
def Nests (setting : Setting) (a b : Request × State) : Prop :=
  setting.During a.1 a.2 ⟨some b.1, b.2⟩

/-- What is inside of a request is inside of all that it is inside of. -/
theorem Within.trans {top : Moment → Prop} {outer inner : List Request}
    (h : setting.Within top outer ⟨some r, s⟩) (hm : setting.Within (Asking r s) inner m) :
    setting.Within top (outer ++ inner) m := by
  induction hm with
  | direct passed =>
    cases passed
    rw [List.append_nil]
    exact h
  | nested _ during ih =>
    rw [← List.append_assoc]
    exact ih.nested during

section Changes

variable {f : Frame} {S : State → State → Prop} (hS : setting.Change S) (hf : f.setting = setting)

include hS hf

theorem Change.related : Frame.Related (fun _ x _ => Eval.Makes S x) f f where
  origin := rfl
  locals := rfl
  position := rfl
  constants locals position function directories target :=
    @importConstants _ _ hS { f with locals, position } hf function directories target

/-- An expression makes the change, if its requests do. -/
theorem Change.eval (hserve : ∀ r, Eval.Makes S (f.serve r)) (e : Expr) :
    Eval.Makes S (f.eval e) :=
  hS.congruence.eval (hS.related hf) e fun specifier _ => hserve ⟨specifier, f.origin⟩

theorem Change.evalArguments (hserve : ∀ r, Eval.Makes S (f.serve r)) (es : List Expr) :
    Eval.Makes S (f.evalArguments es) :=
  hS.congruence.evalArguments (hS.related hf) es fun specifier _ => hserve ⟨specifier, f.origin⟩

/-- What a statement does with a value makes the change. -/
theorem Change.perform (a : Action) (v : Value) : Eval.Makes S (f.perform a v) :=
  hS.congruence.performing (hS.related hf) a v

theorem Change.advance (hserve : ∀ r, Eval.Makes S (f.serve r)) (s : Statement) :
    Eval.Makes S (f.advance s) := by
  refine hS.bind (@eval _ { f with position := s.position } _ hS hf hserve s.action.expr) fun v => ?_
  exact hS.bind (@perform _ { f with position := s.position } _ hS hf s.action v) fun _ t =>
    hS.refl t

end Changes

section Evolution

variable {f : Frame}

theorem Evolving.related (hf : f.setting = setting) :
    Frame.Related (fun _ x _ => setting.Evolving x) f f :=
  (change setting).related hf

theorem Evolving.eval (hf : f.setting = setting) (hserve : ∀ r, setting.Evolving (f.serve r))
    (e : Expr) : setting.Evolving (f.eval e) :=
  (change setting).eval hf hserve e

theorem Evolving.advance (hf : f.setting = setting) (hserve : ∀ r, setting.Evolving (f.serve r))
    (s : Statement) : setting.Evolving (f.advance s) :=
  (change setting).advance hf hserve s

mutual

/-- In all its moments an expression has changed the state only as running scripts does. -/
theorem evolves_of_passes {f : Frame} (hf : f.setting = setting)
    (hserve : ∀ r, setting.Evolving (f.serve r)) :
    ∀ {e : Expr} {s : State} {m : Moment}, f.Passes e s m → setting.Evolves s m.state
  | _, _, _, .finished e s => Evolving.eval hf hserve e s
  | _, _, _, .asked _ s => .refl s
  | _, _, _, .target inner => evolves_of_passes hf hserve inner
  | _, _, _, .field inner => evolves_of_passesAll hf hserve inner
  | _, _, _, .argument inner => evolves_of_passesAll hf hserve inner

theorem evolves_of_passesAll {f : Frame} (hf : f.setting = setting)
    (hserve : ∀ r, setting.Evolving (f.serve r)) :
    ∀ {es : List Expr} {s : State} {m : Moment}, f.PassesAll es s m → setting.Evolves s m.state
  | _, _, _, .first inner => evolves_of_passes hf hserve inner
  | _, _, _, .later before inner =>
    ((Evolving.eval hf hserve _).evolves before).trans (evolves_of_passesAll hf hserve inner)

end

theorem evolves_of_passesRun {statements : List Statement} (h : Frame.PassesRun f statements s m)
    (hf : f.setting = setting) (hserve : ∀ r, setting.Evolving (f.serve r)) :
    setting.Evolves s m.state := by
  induction h with
  | @evaluated f statement _ _ _ inner =>
    exact @evolves_of_passes _ { f with position := statement.position } hf hserve _ _ _ inner
  | performed f statement _ u => exact Evolving.advance hf hserve statement u
  | next before _ ih =>
    have hfirst := (Evolving.advance hf hserve _).evolves before
    obtain ⟨locals, rfl⟩ := Frame.advance_frame before
    exact hfirst.trans (ih hf hserve)

end Evolution

theorem ChunkPasses.evolves {c : Chunk} (h : setting.ChunkPasses c s m) :
    setting.Evolves s m.state :=
  evolves_of_passesRun h rfl setting.evolves_requireModule

theorem FilePasses.evolves {p : Path} (h : setting.FilePasses p s m) :
    setting.Evolves s m.state := by
  cases h with
  | started => exact .refl s
  | read => exact Evolving.load p s
  | run loaded inner => exact ((Evolving.load p).evolves loaded).trans inner.evolves

theorem OwnPasses.evolves {specifier : String} (h : setting.OwnPasses specifier s m) :
    setting.Evolves s m.state := by
  cases h with
  | started => exact .refl s
  | hosted _ _ inner => exact inner.evolves

/-- In all its moments a load has changed the state only as running scripts does, up to the record
of its file at its end. -/
theorem LoadPasses.evolves (h : setting.LoadPasses r s m) :
    ∃ t, setting.Evolves s t ∧ (m.state = t ∨ ∃ file, m.state = t.record file) := by
  cases h with
  | @resolved file m found inner =>
    exact ⟨m.state, (Evolves.entered s found).trans inner.evolves, .inl rfl⟩
  | own _ inner => exact ⟨_, inner.evolves, .inl rfl⟩
  | ended =>
    rcases hload : setting.loadModule (setting.loader setting.requireModule) r s with
      ⟨e | ⟨v, source⟩, u⟩
    · exact ⟨u, Evolving.loadModule_error setting.evolves_requireModule hload, .inl rfl⟩
    · obtain ⟨t, hbody, _, hu⟩ := Evolving.loadModule setting.evolves_requireModule hload
      refine ⟨t, hbody, ?_⟩
      cases source with
      | resolved file => exact .inr ⟨file, hu⟩
      | runtime => exact .inl hu

/-- In all its moments a load keeps the stack as it was when it began. -/
theorem LoadPasses.steady (h : setting.LoadPasses r s m) : s.Steady m.state := by
  obtain ⟨t, hbody, hm | ⟨file, hm⟩⟩ := h.evolves
  · exact hm ▸ hbody.steady
  · rw [hm]
    exact ⟨hbody.steady.loading_eq, hbody.steady.fresh⟩

section Requests

variable {specifiers : List String} {origin : Option Path}

theorem ChunkPasses.asks {c : Chunk} (h : setting.ChunkPasses c s ⟨some q, t⟩) :
    q.specifier ∈ c.requests ∧ q.origin = c.origin :=
  Frame.PassesRun.asks h q rfl

/-- The requests of a file are those of its text, with that file as their origin. -/
theorem FilePasses.asks {p : Path} (h : setting.FilePasses p s ⟨some q, t⟩) :
    ∃ loc source c, setting.disk.readFile p = .ok (loc, source) ∧
      Chunk.ofText source (some p) = .ok c ∧ q.specifier ∈ c.requests ∧ q.origin = some p := by
  cases h with
  | run loaded inner =>
    obtain ⟨loc, source, hread, hchunk, _⟩ := load_eq_ok.1 loaded
    obtain ⟨hspecifier, horigin⟩ := inner.asks
    rw [(Chunk.ofText_of_ofText hchunk none).1] at horigin
    exact ⟨loc, source, _, hread, hchunk, hspecifier, horigin⟩

theorem FilePasses.mem_reachableRequests {p : Path} (h : setting.FilePasses p s ⟨some q, t⟩)
    (hp : some p ∈ setting.reachableOrigins specifiers origin) :
    q ∈ setting.reachableRequests specifiers origin := by
  obtain ⟨loc, source, c, hread, hchunk, hspecifier, horigin⟩ := h.asks
  have hq := mem_reachableRequests_of_chunk hread hchunk hp hspecifier
  rw [← horigin] at hq
  exact hq

/-- What is asked for while a module is being loaded can be asked for if the module can. -/
theorem LoadPasses.mem_reachableRequests (h : setting.LoadPasses r s ⟨some q, t⟩)
    (hr : r ∈ setting.reachableRequests specifiers origin) :
    q ∈ setting.reachableRequests specifiers origin := by
  cases h with
  | resolved found inner =>
    exact inner.mem_reachableRequests (mem_reachableOrigins_of_resolved found)
  | own _ inner =>
    cases inner with
    | hosted _ searched inner =>
      exact inner.mem_reachableRequests
        (mem_reachableOrigins_of_searchPath (Setting.mem_reachableRequests.1 hr).1 searched)

/-- A request made during a load finds fewer keys free than the load did. -/
theorem During.vacant_lt {requests : List Request} (h : setting.During r s m) (hr : r ∈ requests) :
    vacant requests m.state < vacant requests s := by
  rw [vacant_congr h.passes.steady.loading_eq]
  exact vacant_push_lt hr h.free

/-- Each request that is being loaded has taken a key that was free. -/
theorem Within.vacant_le {top : Moment → Prop} {requests : List Request}
    (htop : ∀ r s, top ⟨some r, s⟩ → r ∈ requests)
    (hload : ∀ {r s q t}, r ∈ requests → setting.LoadPasses r s ⟨some q, t⟩ → q ∈ requests)
    {outer : List Request} (h : setting.Within top outer m) :
    (∀ r, m.request = some r → r ∈ requests) ∧
      vacant requests m.state + outer.length ≤ requests.length := by
  induction h with
  | @direct m passed =>
    refine ⟨fun r hr => ?_, List.countP_le_length⟩
    obtain ⟨request, s⟩ := m
    cases hr
    exact htop _ _ passed
  | @nested outer r s m _ during ih =>
    obtain ⟨hmem, hvacant⟩ := ih
    have hr := hmem r rfl
    have hlt := during.vacant_lt hr
    dsimp only at hvacant
    refine ⟨fun q hq => ?_, ?_⟩
    · obtain ⟨request, t⟩ := m
      cases hq
      exact hload hr during.passes
    · rw [List.length_append, List.length_singleton]
      omega

/-- Requests are nested no deeper than there are requests that can be made. -/
theorem Within.length_lt_depth {top : Moment → Prop}
    (htop : ∀ r s, top ⟨some r, s⟩ → r ∈ setting.reachableRequests specifiers origin)
    {outer : List Request} (h : setting.Within top outer m) :
    outer.length < setting.depth specifiers origin := by
  have hle := (h.vacant_le htop fun hr inner => inner.mem_reachableRequests hr).2
  rw [depth_eq]
  omega

end Requests

theorem mem_reachableRequests_self (setting : Setting) (r : Request) :
    r ∈ setting.reachableRequests [r.specifier] r.origin :=
  mem_reachableRequests.2
    ⟨List.mem_append_left _ (List.mem_singleton_self _), List.mem_cons_self⟩

/-- No chain of nested requests goes on for ever. -/
theorem wellFounded_nests (setting : Setting) : WellFounded fun b a => setting.Nests a b := by
  refine ⟨fun ⟨r, s⟩ => ?_⟩
  -- All that is asked for inside of the request is in one finite list; the free keys in it dwindle.
  have hacc : ∀ n a, a.1 ∈ setting.reachableRequests [r.specifier] r.origin →
      vacant (setting.reachableRequests [r.specifier] r.origin) a.2 = n →
      Acc (fun b a => setting.Nests a b) a := by
    intro n
    induction n using Nat.strongRecOn with
    | ind n ih =>
      rintro a hr rfl
      refine ⟨a, fun b during => ?_⟩
      exact ih _ (During.vacant_lt during hr) b (during.passes.mem_reachableRequests hr) rfl
  exact hacc _ (r, s) (setting.mem_reachableRequests_self r) rfl

section Same

variable {serve serve' : Request → Eval Value}

/-- Loading hangs on the file or the own module that it loads. -/
theorem loadModule_same
    (hrun : ∀ file, setting.resolved? r = some file →
      setting.runFile serve' file (s.log (.entered ⟨file, r.specifier⟩)) =
        setting.runFile serve file (s.log (.entered ⟨file, r.specifier⟩)))
    (hown : setting.resolved? r = none →
      setting.ownModule serve' r.specifier s = setting.ownModule serve r.specifier s) :
    setting.loadModule (setting.loader serve') r s =
      setting.loadModule (setting.loader serve) r s := by
  generalize hout : setting.loadModule (setting.loader serve) r s = outcome
  cases loads_iff.2 hout with
  | resolved found run => exact (Loads.resolved found ((hrun _ found).trans run)).eq
  | resolvedFailed found run => exact (Loads.resolvedFailed found ((hrun _ found).trans run)).eq
  | resolvedStopped found run final =>
    exact (Loads.resolvedStopped found ((hrun _ found).trans run) final).eq
  | own missing own => exact (Loads.own missing ((hown missing).trans own)).eq
  | ownFailed missing own => exact (Loads.ownFailed missing ((hown missing).trans own)).eq
  | unresolved missing own => exact (Loads.unresolved missing ((hown missing).trans own)).eq

theorem execute_same {c : Chunk}
    (h : ∀ q t, setting.ChunkPasses c s ⟨some q, t⟩ → serve' q t = setting.requireModule q t) :
    setting.execute serve' c s = setting.execute setting.requireModule c s :=
  Frame.run_same ⟨setting, setting.requireModule, c.origin, [], .start⟩ serve' c.statements h

theorem runFile_same {p : Path}
    (h : ∀ q t, setting.FilePasses p s ⟨some q, t⟩ → serve' q t = setting.requireModule q t) :
    setting.runFile serve' p s = setting.runFile setting.requireModule p s :=
  Eval.bind_same rfl fun _ _ loaded => execute_same fun q t ht => h q t (.run loaded ht)

theorem ownModule_same {specifier : String}
    (h : ∀ q t, setting.OwnPasses specifier s ⟨some q, t⟩ →
      serve' q t = setting.requireModule q t) :
    setting.ownModule serve' specifier s = setting.ownModule setting.requireModule specifier s := by
  rcases hbuiltin : builtinModule? specifier with _ | module
  · rcases hsearch : setting.searchPath specifier with _ | p
    · rw [ownModule_of_missing hbuiltin hsearch, ownModule_of_missing hbuiltin hsearch]
    · have hrun : setting.runFile serve' p s = setting.runFile setting.requireModule p s :=
        runFile_same fun q t ht => h q t (.hosted hbuiltin hsearch ht)
      rw [ownModule_of_template hbuiltin hsearch, ownModule_of_template hbuiltin hsearch,
        Eval.map_apply, Eval.map_apply, hrun]
  · rw [ownModule_of_builtin hbuiltin, ownModule_of_builtin hbuiltin]

/-- Serving a request asks for nothing but what it asks for in its moments. -/
theorem serve_same
    (h : ∀ q t, setting.Nests (r, s) (q, t) → serve' q t = setting.requireModule q t) :
    setting.serve (setting.loader serve') r s = setting.requireModule r s := by
  rw [requireModule_eq]
  have hload (fresh : s.cache.get? r.key = none) (free : r.key ∉ s.loading) :
      setting.loadModule (setting.loader serve') r (s.push r.key) =
        setting.loadModule (setting.loader setting.requireModule) r (s.push r.key) :=
    loadModule_same
      (fun _ found => runFile_same fun q t ht => h q t ⟨fresh, free, .resolved found ht⟩)
      fun missing => ownModule_same fun q t ht => h q t ⟨fresh, free, .own missing ht⟩
  generalize hout : setting.serve (setting.loader setting.requireModule) r s = outcome
  cases serves_iff.2 hout with
  | cached found => exact (Serves.cached found).eq
  | cycle fresh busy => exact (Serves.cycle fresh busy).eq
  | failed fresh free load =>
    exact (Serves.failed fresh free ((hload fresh free).trans load)).eq
  | loaded fresh free load =>
    exact (Serves.loaded fresh free ((hload fresh free).trans load)).eq

end Same

/-- An evaluation that is not stopped for its depth comes to a value or to an error of a module, or
it overflows. -/
theorem ends_of_ne_tooDeep {α : Type} {x : Eval α} (h : (x s).1 ≠ .error .tooDeep)
    (safe : ∀ t, x s = (.error .overflow, t) → setting.arithmetic = .checked) :
    (∃ v t, x s = (.ok v, t)) ∨ (∃ e t, x s = (.error (.failed e), t)) ∨
      setting.arithmetic = .checked ∧ ∃ t, x s = (.error .overflow, t) := by
  rcases hout : x s with ⟨(e | _ | _) | v, t⟩
  · exact .inr (.inl ⟨e, t, rfl⟩)
  · exact .inr (.inr ⟨safe t hout, t, rfl⟩)
  · rw [hout] at h
    exact absurd rfl h
  · exact .inl ⟨v, t, rfl⟩

/-- Every import ends, whatever the files ask for and in whatever state. Requests and chunks come to
a value or to an error of a module, unless an integer of a header stops the whole program, as it can
in checked arithmetic. They are served by the recursion through the requests that they make, with
nothing counted, and hang on no requests but those. Requests are nested no deeper than there are
requests that can be made, and no chain of nested requests goes on for ever. -/
theorem imports_end (setting : Setting) :
    (∀ r s, (∃ v t, setting.requireModule r s = (.ok v, t)) ∨
      (∃ e t, setting.requireModule r s = (.error (.failed e), t)) ∨
      setting.arithmetic = .checked ∧ ∃ t, setting.requireModule r s = (.error .overflow, t)) ∧
    (∀ c s, (∃ v t, setting.runChunk c s = (.ok v, t)) ∨
      (∃ e t, setting.runChunk c s = (.error (.failed e), t)) ∨
      setting.arithmetic = .checked ∧ ∃ t, setting.runChunk c s = (.error .overflow, t)) ∧
    (∀ r, setting.requireModule r = setting.serve (setting.loader setting.requireModule) r) ∧
    (∀ c, setting.runChunk c = setting.execute setting.requireModule c) ∧
    (∀ r s serve, (∀ q t, setting.Nests (r, s) (q, t) → serve q t = setting.requireModule q t) →
      setting.serve (setting.loader serve) r s = setting.requireModule r s) ∧
    (∀ c s serve,
      (∀ q t, setting.ChunkPasses c s ⟨some q, t⟩ → serve q t = setting.requireModule q t) →
      setting.execute serve c s = setting.runChunk c s) ∧
    (∀ r s outer m, setting.Within (Asking r s) outer m →
      outer.length < setting.depth [r.specifier] r.origin) ∧
    (∀ c s outer m, setting.Within (setting.ChunkPasses c s) outer m →
      outer.length < setting.depth c.requests c.origin) ∧
    WellFounded fun b a => setting.Nests a b := by
  refine ⟨fun r s => ends_of_ne_tooDeep (setting.requireModule_ne_tooDeep r s)
      fun t => checked_of_requireModule,
    fun c s => ends_of_ne_tooDeep (setting.runChunk_ne_tooDeep c s) fun t => checked_of_runChunk,
    setting.requireModule_eq, setting.runChunk_eq, fun r s serve h => serve_same h,
    fun c s serve h => ?_, fun r s outer m h => ?_, fun c s outer m h => ?_, setting.wellFounded_nests⟩
  · rw [runChunk_eq]
    exact execute_same h
  · refine h.length_lt_depth fun q t asked => ?_
    cases asked
    exact setting.mem_reachableRequests_self r
  · refine h.length_lt_depth fun q t asked => ?_
    obtain ⟨hspecifier, horigin⟩ := ChunkPasses.asks asked
    refine mem_reachableRequests.2 ⟨List.mem_append_left _ hspecifier, ?_⟩
    rw [horigin]
    exact List.mem_cons_self

/-- The error about a module that an outcome is. -/
def failure? {α : Type} : Except Stop α → Option ModuleError
  | .error (.failed e) => some e
  | .error .overflow | .error .tooDeep | .ok _ => none

theorem eq_failed_of_failure? {α : Type} {outcome : Except Stop α} {e : ModuleError}
    (h : failure? outcome = some e) : outcome = .error (.failed e) := by
  cases outcome with
  | ok v => cases h
  | error stop =>
    cases stop with
    | failed e' =>
      cases h
      rfl
    | overflow | tooDeep => cases h

/-- A script that is found by way of a link and asks for itself ends in an error. It is loaded
twice, once for each file that asks for it. -/
theorem self_import_ends :
    let disk := FileSystem.ofEntries ⟨"/"⟩
      [(⟨"/lib/a.t"⟩, .file (.text "return require \".a\"\n")), (⟨"/a.t"⟩, .link ⟨"/lib/a.t"⟩)]
    let setting : Setting := ⟨disk, ⟨[], "t"⟩, [], .checked⟩
    ∃ e t, setting.requireModule ⟨".a", some ⟨"/main.t"⟩⟩ .empty = (.error (.failed e), t) ∧
      e.cause = .cycle [".a@/main.t", ".a@/lib/a.t", ".a@/lib/a.t"] := by
  intro disk setting
  have hcause : (failure? (setting.requireModule ⟨".a", some ⟨"/main.t"⟩⟩ .empty).1).map (·.cause) =
      some (.cycle [".a@/main.t", ".a@/lib/a.t", ".a@/lib/a.t"]) := by
    decide +kernel
  rcases (imports_end setting).1 ⟨".a", some ⟨"/main.t"⟩⟩ .empty with
    ⟨v, t, h⟩ | ⟨e, t, h⟩ | ⟨_, t, h⟩
  · rw [h] at hcause
    cases hcause
  · rw [h] at hcause
    exact ⟨e, t, h, Option.some.inj hcause⟩
  · rw [h] at hcause
    cases hcause

end Setting

end ScriptBuild
