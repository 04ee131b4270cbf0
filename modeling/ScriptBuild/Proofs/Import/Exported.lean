import ScriptBuild.Proofs.Evaluation.Doings
import ScriptBuild.Proofs.Import.Nesting
import ScriptBuild.Proofs.Script.WellFormed

/-!
# What a request exports

The exports that are executed while a request is served, those of the requests inside of it where
these are made. A load that fails has executed the exports before the statement that stopped it, and
a request that is answered from the cache executes none. Main statements: `requireModule_exports`
says to which table of exports this leads, and `Within.among` that at every moment, however deep in
the requests, a part of it was executed.
-/

namespace ScriptBuild

open Script (Chunk)

namespace Exports

/-- The names that are given values are such as a script can spell. -/
def Named (defs : List (String × Value)) : Prop :=
  ∀ d ∈ defs, Script.isName d.1 = true

variable {es : Exports} {defs more : List (String × Value)}

theorem named_nil : Named [] :=
  fun _ hd => absurd hd List.not_mem_nil

theorem Named.append (h : Named defs) (h' : Named more) : Named (defs ++ more) := by
  intro d hd
  rcases List.mem_append.1 hd with hd | hd
  · exact h d hd
  · exact h' d hd

theorem Tells.isName (h : es.Tells defs) (named : Named defs) {name : String}
    (hname : name ∈ es.names) : Script.isName name = true := by
  obtain ⟨d, hd, rfl⟩ := List.mem_map.1 (h.mem_names.1 hname)
  exact named d hd

end Exports

namespace Setting

/-- What a chunk does. -/
def chunkDoings (setting : Setting) (c : Chunk) : State → List Doing :=
  Frame.doings ⟨setting, setting.requireModule, c.origin, [], .start⟩ c.statements

/-- What the script of a file does. -/
def fileDoings (setting : Setting) (p : Path) : State → List Doing :=
  (setting.load p).following setting.chunkDoings

/-- What is done by a look-up among the modules of the loader. -/
def ownDoings (setting : Setting) (specifier : String) (s : State) : List Doing :=
  match builtinModule? specifier, setting.searchPath specifier with
  | none, some p => setting.fileDoings p s
  | _, _ => []

/-- What is done by a load. -/
def loadDoings (setting : Setting) (r : Request) (s : State) : List Doing :=
  match setting.resolved? r with
  | some file => setting.fileDoings file (s.log (.entered ⟨file, r.specifier⟩))
  | none => setting.ownDoings r.specifier s

/-- What is done by the load that a request leads to, if it leads to one. -/
def requestDoings (setting : Setting) (r : Request) (s : State) : List Doing :=
  if s.cache.get? r.key = none ∧ r.key ∉ s.loading then setting.loadDoings r (s.push r.key) else []

variable {setting : Setting} {r q : Request} {s t : State} {m : Moment}

theorem chunkPasses_of_mem {c : Chunk} (h : .asked q t ∈ setting.chunkDoings c s) :
    setting.ChunkPasses c s ⟨some q, t⟩ := by
  rcases Frame.of_mem_doings h with ⟨_, _, heq, hpasses⟩ | ⟨_, _, _, heq, _⟩
  · cases heq
    exact hpasses
  · cases heq

theorem filePasses_of_mem {p : Path} (h : .asked q t ∈ setting.fileDoings p s) :
    setting.FilePasses p s ⟨some q, t⟩ := by
  obtain ⟨c, u, loaded, hin⟩ := Eval.mem_following.1 h
  exact .run loaded (chunkPasses_of_mem hin)

/-- What a look-up does is what the script of a file does. -/
theorem mem_ownDoings {specifier : String} {d : Doing} (h : d ∈ setting.ownDoings specifier s) :
    ∃ p, builtinModule? specifier = none ∧ setting.searchPath specifier = some p ∧
      d ∈ setting.fileDoings p s := by
  unfold ownDoings at h
  split at h
  · next p hforeign hsearch => exact ⟨p, hforeign, hsearch, h⟩
  · cases h

theorem ownPasses_of_mem {specifier : String} (h : .asked q t ∈ setting.ownDoings specifier s) :
    setting.OwnPasses specifier s ⟨some q, t⟩ := by
  obtain ⟨p, hforeign, hsearch, hin⟩ := mem_ownDoings h
  exact .hosted hforeign hsearch (filePasses_of_mem hin)

theorem loadPasses_of_mem (h : .asked q t ∈ setting.loadDoings r s) :
    setting.LoadPasses r s ⟨some q, t⟩ := by
  unfold loadDoings at h
  split at h
  · next file found => exact .resolved found (filePasses_of_mem h)
  · next missing => exact .own missing (ownPasses_of_mem h)

theorem requestDoings_of_fresh (fresh : s.cache.get? r.key = none) (free : r.key ∉ s.loading) :
    setting.requestDoings r s = setting.loadDoings r (s.push r.key) :=
  if_pos ⟨fresh, free⟩

/-- What a request does is what its load does, if there is one. -/
theorem mem_requestDoings {d : Doing} : d ∈ setting.requestDoings r s ↔
    s.cache.get? r.key = none ∧ r.key ∉ s.loading ∧ d ∈ setting.loadDoings r (s.push r.key) := by
  unfold requestDoings
  split
  · next h => simp [h.1, h.2]
  · next h =>
    simp only [List.not_mem_nil, false_iff]
    exact fun hd => h ⟨hd.1, hd.2.1⟩

theorem nests_of_mem (h : .asked q t ∈ setting.requestDoings r s) :
    setting.Nests (r, s) (q, t) := by
  obtain ⟨fresh, free, hin⟩ := mem_requestDoings.1 h
  exact ⟨fresh, free, loadPasses_of_mem hin⟩

/-- The exports that are executed while a request is served. -/
def requestExports (setting : Setting) (r : Request) (s : State) : List (String × Value) :=
  (setting.requestDoings r s).attach.flatMap fun
    | ⟨.asked q t, _⟩ => setting.requestExports q t
    | ⟨.exported name v, _⟩ => [(name, v)]
termination_by setting.wellFounded_nests.wrap (r, s)
decreasing_by exact nests_of_mem ‹_›

/-- The exports that doings come to. -/
def exportsOf (setting : Setting) (ds : List Doing) : List (String × Value) :=
  Doing.definitions setting.requestExports ds

theorem requestExports_eq (setting : Setting) (r : Request) (s : State) :
    setting.requestExports r s = setting.exportsOf (setting.requestDoings r s) := by
  rw [requestExports, exportsOf, Doing.definitions, List.flatMap_subtype, List.unattach_attach]
  rintro (_ | _) _ <;> rfl

theorem keepsExports_load (setting : Setting) (p : Path) : (setting.load p).KeepsExports := by
  intro s
  rcases hread : setting.disk.readFile p with cause | ⟨loc, source⟩
  · rw [load_of_error hread]
  · rw [load_of_text hread]
    split <;> rfl

theorem keepsExports_builtinModule {specifier : String} {module : Eval Value}
    (h : builtinModule? specifier = some module) : module.KeepsExports := by
  unfold builtinModule? at h
  split at h
  · cases h
    exact fun _ => rfl
  · split at h
    · cases h
      exact fun _ => rfl
    · cases h

/-- Serving the request makes the exports that it is said to execute. -/
def Exporting (setting : Setting) (r : Request) (s : State) : Prop :=
  s.exports.Becomes (setting.requestExports r s) (setting.requireModule r s).2.exports

theorem does_execute {c : Chunk}
    (h : ∀ q t, .asked q t ∈ setting.chunkDoings c s → setting.Exporting q t) :
    (setting.execute setting.requireModule c).Does setting.requestExports s
      (setting.chunkDoings c s) :=
  Frame.does_run _ _ h

theorem does_runFile {p : Path}
    (h : ∀ q t, .asked q t ∈ setting.fileDoings p s → setting.Exporting q t) :
    (setting.runFile setting.requireModule p).Does setting.requestExports s
      (setting.fileDoings p s) :=
  ((setting.keepsExports_load p).does s).bind fun c u loaded => does_execute fun q t ht =>
    h q t (Eval.mem_following.2 ⟨c, u, loaded, ht⟩)

theorem does_ownModule {specifier : String}
    (h : ∀ q t, .asked q t ∈ setting.ownDoings specifier s → setting.Exporting q t) :
    (setting.ownModule setting.requireModule specifier).Does setting.requestExports s
      (setting.ownDoings specifier s) := by
  unfold ownDoings at h ⊢
  rcases hbuiltin : builtinModule? specifier with _ | module
  · rcases hsearch : setting.searchPath specifier with _ | p
    · rw [ownModule_of_missing hbuiltin hsearch]
      exact .nil s.exports
    · rw [hbuiltin, hsearch] at h
      rw [ownModule_of_template hbuiltin hsearch, ← bind_pure_comp]
      exact (does_runFile h).bind_keeps fun _ _ => rfl
  · rw [ownModule_of_builtin hbuiltin, ← bind_pure_comp]
    exact ((keepsExports_builtinModule hbuiltin).does s).bind_keeps fun _ _ => rfl

theorem does_loadModule
    (h : ∀ q t, .asked q t ∈ setting.loadDoings r s → setting.Exporting q t) :
    (setting.loadModule (setting.loader setting.requireModule) r).Does setting.requestExports s
      (setting.loadDoings r s) := by
  unfold loadDoings at h ⊢
  unfold Eval.Does
  generalize hout : setting.loadModule (setting.loader setting.requireModule) r s = outcome
  cases loads_iff.2 hout with
  | resolved found run | resolvedFailed found run | resolvedStopped found run =>
    rw [found] at h ⊢
    have hrun := (does_runFile h).change run
    exact hrun
  | own missing own | ownFailed missing own | unresolved missing own =>
    rw [missing] at h ⊢
    exact (does_ownModule h).change own

/-- A request makes the exports that are executed while it is served, whether it succeeds or
fails. -/
theorem requireModule_exports (setting : Setting) (r : Request) (s : State) :
    setting.Exporting r s := by
  -- The induction is on the nesting of requests: the load makes those that are nested in it.
  refine setting.wellFounded_nests.induction (C := fun a => setting.Exporting a.1 a.2) (r, s) ?_
  rintro ⟨r, s⟩ ih
  have hload (fresh : s.cache.get? r.key = none) (free : r.key ∉ s.loading) :
      (setting.loadModule (setting.loader setting.requireModule) r).Does setting.requestExports
        (s.push r.key) (setting.requestDoings r s) := by
    rw [requestDoings_of_fresh fresh free]
    exact does_loadModule fun q t ht => ih (q, t) ⟨fresh, free, loadPasses_of_mem ht⟩
  unfold Exporting
  rw [requireModule_eq, requestExports_eq]
  generalize hout : setting.serve (setting.loader setting.requireModule) r s = outcome
  cases serves_iff.2 hout with
  | cached found =>
    have hnothing : setting.requestDoings r s = [] := if_neg fun h => by simp [found] at h
    exact hnothing ▸ .nil s.exports
  | cycle _ busy =>
    have hnothing : setting.requestDoings r s = [] := if_neg fun h => h.2 busy
    exact hnothing ▸ .nil s.exports
  | failed fresh free load =>
    have hfailed := (hload fresh free).change load
    exact hfailed
  | loaded fresh free load =>
    have hloaded := (hload fresh free).change load
    exact (register_keeps _ _ _ _).2.symm ▸ hloaded

theorem ChunkPasses.among {c : Chunk} (h : setting.ChunkPasses c s m) :
    m.Among setting.requestExports s (setting.exportsOf (setting.chunkDoings c s)) :=
  Frame.PassesRun.among h setting.requireModule_exports

theorem FilePasses.among {p : Path} (h : setting.FilePasses p s m) :
    m.Among setting.requestExports s (setting.exportsOf (setting.fileDoings p s)) := by
  cases h with
  | started => exact Moment.among_start _ _ _
  | read => exact ⟨[], List.nil_prefix, (setting.keepsExports_load p).becomes s⟩
  | run loaded inner =>
    rw [fileDoings, Eval.following_of_ok loaded]
    have hstart := ((setting.keepsExports_load p).does (E := setting.requestExports) s).change loaded
    exact inner.among.after hstart

theorem OwnPasses.among {specifier : String} (h : setting.OwnPasses specifier s m) :
    m.Among setting.requestExports s (setting.exportsOf (setting.ownDoings specifier s)) := by
  cases h with
  | started => exact Moment.among_start _ _ _
  | hosted foreign searched inner =>
    rw [ownDoings, foreign, searched]
    exact inner.among

theorem LoadPasses.among (h : setting.LoadPasses r s m) :
    m.Among setting.requestExports s (setting.exportsOf (setting.loadDoings r s)) := by
  cases h with
  | resolved found inner =>
    rw [loadDoings, found]
    exact inner.among
  | own missing inner =>
    rw [loadDoings, missing]
    exact inner.among
  | ended => exact Moment.among_end (does_loadModule fun q t _ => setting.requireModule_exports q t)

theorem During.among (h : setting.During r s m) :
    m.Among setting.requestExports s (setting.requestExports r s) := by
  rw [requestExports_eq, requestDoings_of_fresh h.fresh h.free]
  exact h.passes.among

/-- However deep in the requests, each moment comes after a part of what the whole evaluation
exports. -/
theorem Within.among {top : Moment → Prop} {defs : List (String × Value)}
    (htop : ∀ m, top m → m.Among setting.requestExports s defs) {outer : List Request}
    (h : setting.Within top outer m) : m.Among setting.requestExports s defs := by
  induction h with
  | direct passed => exact htop _ passed
  | nested _ during ih =>
    -- The exports of the request that is being loaded follow on those before it.
    obtain ⟨made, hmade, hstate⟩ := ih
    exact (during.among.after hstate).mono hmade

section Names

variable {name : String} {v : Value}

theorem isName_of_mem_chunkDoings {source : String} {origin : Option Path} {c : Chunk}
    (hchunk : Chunk.ofText source origin = .ok c)
    (h : .exported name v ∈ setting.chunkDoings c s) : Script.isName name = true := by
  rcases Frame.of_mem_doings h with ⟨_, _, heq, _⟩ | ⟨_, _, _, heq, st, hst, haction⟩
  · cases heq
  · cases heq
    have hwell := (Script.wellFormed_of_ofText hchunk).each _ (List.mem_map_of_mem hst)
    rw [haction] at hwell
    cases hwell with
    | «export» named => exact named

theorem isName_of_mem_fileDoings {p : Path} (h : .exported name v ∈ setting.fileDoings p s) :
    Script.isName name = true := by
  obtain ⟨c, u, loaded, hin⟩ := Eval.mem_following.1 h
  obtain ⟨loc, source, _, hchunk, _⟩ := load_eq_ok.1 loaded
  exact isName_of_mem_chunkDoings hchunk hin

theorem isName_of_mem_ownDoings {specifier : String}
    (h : .exported name v ∈ setting.ownDoings specifier s) : Script.isName name = true := by
  obtain ⟨p, _, _, hin⟩ := mem_ownDoings h
  exact isName_of_mem_fileDoings hin

theorem isName_of_mem_requestDoings (h : .exported name v ∈ setting.requestDoings r s) :
    Script.isName name = true := by
  obtain ⟨_, _, hin⟩ := mem_requestDoings.1 h
  unfold loadDoings at hin
  split at hin
  · exact isName_of_mem_fileDoings hin
  · exact isName_of_mem_ownDoings hin

theorem named_requestExports (setting : Setting) (r : Request) (s : State) :
    Exports.Named (setting.requestExports r s) := by
  refine setting.wellFounded_nests.induction
    (C := fun a => Exports.Named (setting.requestExports a.1 a.2)) (r, s) ?_
  rintro ⟨r, s⟩ ih d hd
  rw [requestExports_eq] at hd
  rcases Doing.mem_definitions.1 hd with ⟨q, t, hasked, hin⟩ | hexported
  · exact ih (q, t) (nests_of_mem hasked) d hin
  · exact isName_of_mem_requestDoings hexported

theorem named_exportsOf {ds : List Doing}
    (h : ∀ name v, .exported name v ∈ ds → Script.isName name = true) :
    Exports.Named (setting.exportsOf ds) := by
  intro d hd
  rcases Doing.mem_definitions.1 hd with ⟨q, t, _, hin⟩ | hexported
  · exact setting.named_requestExports q t d hin
  · exact h d.1 d.2 hexported

end Names

end Setting

end ScriptBuild
