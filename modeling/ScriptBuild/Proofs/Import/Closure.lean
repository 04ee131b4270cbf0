import Mathlib.Data.List.Basic
import Mathlib.Logic.Relation
import ScriptBuild.Proofs.Import.Nesting
import ScriptBuild.Proofs.Import.Ledger
import ScriptBuild.Proofs.Script.Returns

/-!
# The cache and the imports of its modules

A module is put into the cache when its script has run to its end. By then everything that the
script asks for anywhere in its text is in the cache: `has_of_runFile`. Main statements:
`Keeping.require` says that serving requests keeps the cache closed under imports, and
`Closed.acyclic` that no chain of imports in a closed cache comes back to where it began.
-/

namespace ScriptBuild

open Script (Chunk Expr ReturnsLast Statement)

/-- A module is in the cache under the key. -/
def State.Has (s : State) (key : String) : Prop :=
  key ∈ s.cache.map (·.key)

namespace Setting

variable {setting : Setting} {serve : Request → Eval Value} {s t u : State} {r : Request}
  {v : Value}

theorem Evolves.has (h : setting.Evolves s t) {key : String} (hs : s.Has key) : t.Has key := by
  obtain ⟨more, hmore, _⟩ := h.cache_eq
  unfold State.Has
  rw [hmore, List.map_append]
  exact List.mem_append_left _ hs

/-- The text of the file is the chunk. -/
def Reads (setting : Setting) (p : Path) (c : Chunk) : Prop :=
  ∃ loc source, setting.disk.readFile p = .ok (loc, source) ∧ Chunk.ofText source (some p) = .ok c

theorem Reads.unique {p : Path} {c c' : Chunk} (h : setting.Reads p c) (h' : setting.Reads p c') :
    c = c' := by
  obtain ⟨loc, source, hread, hchunk⟩ := h
  obtain ⟨loc', source', hread', hchunk'⟩ := h'
  rw [hread] at hread'
  cases hread'
  rw [hchunk] at hchunk'
  exact Except.ok.inj hchunk'

section Asked

/-- The requests of a script change the state only as running scripts does, and those that are
answered have their keys in the cache. -/
structure Answers (setting : Setting) (serve : Request → Eval Value) : Prop where
  evolving : ∀ r, setting.Evolving (serve r)
  has : ∀ {r s v t}, serve r s = (.ok v, t) → t.Has r.key

theorem has_of_require {f : Frame} (hserve : setting.Answers f.serve) {specifier : String}
    (h : f.require specifier s = (.ok v, t)) : t.Has (Request.key ⟨specifier, f.origin⟩) := by
  unfold Frame.require at h
  split at h
  · exact hserve.has (Eval.mapError_eq_ok.1 h)
  · exact hserve.has h

mutual

/-- When an expression has its value, all that is asked for in it is in the cache. -/
theorem has_of_eval {f : Frame} (hf : f.setting = setting) (hserve : setting.Answers f.serve) :
    ∀ {e : Expr} {s t : State} {v : Value}, f.eval e s = (.ok v, t) →
      ∀ specifier ∈ e.requests, t.Has (Request.key ⟨specifier, f.origin⟩)
  | .nil, _, _, _, _, _, hin | .bool _, _, _, _, _, _, hin | .int _, _, _, _, _, _, hin
  | .str _, _, _, _, _, _, hin | .name _, _, _, _, _, _, hin => by cases hin
  | .require _, _, _, _, h, _, hin => by
    rw [List.mem_singleton.1 hin]
    exact has_of_require hserve h
  | .field target name, s, t, v, h, specifier, hin => by
    obtain ⟨w, u, htarget, hfield⟩ := Eval.bind_eq_ok.1 h
    cases hfound : w.field? name with
    | none =>
      rw [hfound] at hfield
      cases hfield
    | some found =>
      rw [hfound] at hfield
      cases hfield
      exact has_of_eval hf hserve htarget specifier hin
  | .table fields, s, t, v, h, specifier, hin => by
    obtain ⟨values, u, hfields, hmade⟩ := Eval.bind_eq_ok.1 h
    cases hmade
    exact has_of_evalFields hf hserve hfields specifier hin
  | .call function arguments, s, t, v, h, specifier, hin => by
    obtain ⟨values, u, harguments, hcall⟩ := Eval.bind_eq_ok.1 h
    have hcalled : setting.Evolving (f.call function values) :=
      (Evolving.congruence setting).call (Evolving.related hf) function values
    exact (hcalled.evolves hcall).has (has_of_evalArguments hf hserve harguments specifier hin)

theorem has_of_evalFields {f : Frame} (hf : f.setting = setting)
    (hserve : setting.Answers f.serve) :
    ∀ {fields : List (String × Expr)} {s t : State} {vs : List (String × Value)},
      f.evalFields fields s = (.ok vs, t) →
      ∀ specifier ∈ Script.fieldRequests fields, t.Has (Request.key ⟨specifier, f.origin⟩)
  | [], _, _, _, _, _, hin => by cases hin
  | (key, e) :: fields, s, t, vs, h, specifier, hin => by
    obtain ⟨w, u, hfirst, hmore⟩ := Eval.bind_eq_ok.1 h
    obtain ⟨ws, u', hfields, hdone⟩ := Eval.bind_eq_ok.1 hmore
    cases hdone
    rcases List.mem_append.1 hin with hin | hin
    · have hrest : setting.Evolving (f.evalFields fields) :=
        (Evolving.congruence setting).evalFields (Evolving.related hf) fields fun specifier _ =>
          hserve.evolving ⟨specifier, f.origin⟩
      exact (hrest.evolves hfields).has (has_of_eval hf hserve hfirst specifier hin)
    · exact has_of_evalFields hf hserve hfields specifier hin

theorem has_of_evalArguments {f : Frame} (hf : f.setting = setting)
    (hserve : setting.Answers f.serve) :
    ∀ {arguments : List Expr} {s t : State} {vs : List Value},
      f.evalArguments arguments s = (.ok vs, t) →
      ∀ specifier ∈ Script.argumentRequests arguments, t.Has (Request.key ⟨specifier, f.origin⟩)
  | [], _, _, _, _, _, hin => by cases hin
  | e :: arguments, s, t, vs, h, specifier, hin => by
    obtain ⟨w, u, hfirst, hmore⟩ := Eval.bind_eq_ok.1 h
    obtain ⟨ws, u', harguments, hdone⟩ := Eval.bind_eq_ok.1 hmore
    cases hdone
    rcases List.mem_append.1 hin with hin | hin
    · have hrest : setting.Evolving (f.evalArguments arguments) :=
        (Evolving.congruence setting).evalArguments (Evolving.related hf) arguments
          fun specifier _ => hserve.evolving ⟨specifier, f.origin⟩
      exact (hrest.evolves harguments).has (has_of_eval hf hserve hfirst specifier hin)
    · exact has_of_evalArguments hf hserve harguments specifier hin

end

/-- A statement that was run leaves all that it asks for in the cache. -/
theorem has_of_advance {f : Frame} (hf : f.setting = setting) (hserve : setting.Answers f.serve)
    {statement : Statement} {outcome : Value ⊕ Frame}
    (h : f.advance statement s = (.ok outcome, t)) :
    ∀ specifier ∈ statement.requests, t.Has (Request.key ⟨specifier, f.origin⟩) := by
  intro specifier hin
  let here : Frame := { f with position := statement.position }
  obtain ⟨w, u, heval, hmore⟩ := Eval.bind_eq_ok.1 h
  obtain ⟨_, u', hperform, hdone⟩ := Eval.bind_eq_ok.1 hmore
  cases hdone
  have hrelated : here.Related (fun _ x _ => setting.Evolving x) here := Evolving.related hf
  have hperformed : setting.Evolving (here.perform statement.action w) :=
    (Evolving.congruence setting).performing hrelated statement.action w
  have hasked : u.Has (Request.key ⟨specifier, here.origin⟩) :=
    @has_of_eval setting here hf hserve _ _ _ _ heval specifier hin
  exact (hperformed.evolves hperform).has hasked

/-- A script that was run to its end leaves all that it asks for in the cache. No statement of it
was left out, because it returns at its end or not at all. -/
theorem has_of_run {f : Frame} (hf : f.setting = setting) (hserve : setting.Answers f.serve)
    {statements : List Statement} (returns : ReturnsLast statements)
    (h : f.run statements s = (.ok v, t)) :
    ∀ specifier ∈ statements.flatMap (·.requests), t.Has (Request.key ⟨specifier, f.origin⟩) := by
  induction returns generalizing f s with
  | nil =>
    intro specifier hin
    cases hin
  | @cons statement more last rest ih =>
    intro specifier hin
    rw [Frame.run_cons] at h
    obtain ⟨outcome, u, hadvance, hmore⟩ := Eval.bind_eq_ok.1 h
    have hasked := has_of_advance hf hserve hadvance specifier
    rw [List.flatMap_cons] at hin
    cases outcome with
    | inl w =>
      cases hmore
      rw [last (Frame.isReturn_of_advance hadvance), List.flatMap_nil, List.append_nil] at hin
      exact hasked hin
    | inr g =>
      obtain ⟨locals, hg⟩ := Frame.advance_frame hadvance
      have hsetting : g.setting = setting := by rw [hg, ← hf]
      have hserve' : setting.Answers g.serve := by rw [hg]; exact hserve
      have horigin : g.origin = f.origin := by rw [hg]
      rw [← horigin] at hasked ⊢
      rcases List.mem_append.1 hin with hin | hin
      · have hrest : setting.Evolving (g.run more) :=
          (Evolving.congruence setting).run (Evolving.related hsetting) more fun specifier _ =>
            hserve'.evolving ⟨specifier, g.origin⟩
        exact (hrest.evolves hmore).has (hasked hin)
      · exact ih hsetting hserve' hmore specifier hin

/-- A file that was run to its end is a script, and leaves all that it asks for in the cache. -/
theorem has_of_runFile (hserve : setting.Answers serve) {p : Path}
    (h : setting.runFile serve p s = (.ok v, t)) :
    ∃ c, setting.Reads p c ∧ ∀ specifier ∈ c.requests, t.Has (Request.key ⟨specifier, some p⟩) := by
  obtain ⟨loc, source, c, hread, hchunk, hrun⟩ := runFile_eq_ok.1 h
  refine ⟨c, ⟨loc, source, hread, hchunk⟩, ?_⟩
  have hasked := has_of_run (f := ⟨setting, serve, c.origin, [], .start⟩) rfl hserve
    (Script.returnsLast_of_ofText hchunk) hrun
  rwa [(Chunk.ofText_of_ofText hchunk none).1] at hasked

end Asked

/-- The file whose script a module is that was asked for by this specifier. -/
inductive ScriptOf (setting : Setting) (specifier : String) : ModuleSource → Path → Prop where
  | resolved (file : Path) : ScriptOf setting specifier (.resolved file) file
  | hosted {p : Path} (foreign : builtinModule? specifier = none)
      (searched : setting.searchPath specifier = some p) : ScriptOf setting specifier .runtime p

theorem ScriptOf.unique {specifier : String} {source : ModuleSource} {p p' : Path}
    (h : setting.ScriptOf specifier source p) (h' : setting.ScriptOf specifier source p') :
    p = p' := by
  cases h with
  | resolved =>
    cases h'
    rfl
  | hosted _ searched =>
    cases h' with
    | hosted _ searched' =>
      rw [searched] at searched'
      exact Option.some.inj searched'

/-- The module is built in, or it is a script all of whose imports are under these keys. -/
inductive Backed (setting : Setting) (keys : List String) (specifier : String) :
    ModuleSource → Prop where
  | builtIn {module : Eval Value} (builtin : builtinModule? specifier = some module) :
      Backed setting keys specifier .runtime
  | script {source : ModuleSource} {p : Path} {c : Chunk}
      (script : setting.ScriptOf specifier source p) (text : setting.Reads p c)
      (imports : ∀ spec ∈ c.requests, Request.key ⟨spec, some p⟩ ∈ keys) :
      Backed setting keys specifier source

/-- Each module in the cache was asked for by the specifier that the history says, and is backed by
those put there before it. -/
structure Closed (setting : Setting) (s : State) : Prop where
  coherent : s.Coherent
  asked : ∀ x ∈ s.registrations, ∃ origin, x.1 = Request.key ⟨x.2.1, origin⟩
  backed : ∀ before x after, s.registrations = before ++ x :: after →
    setting.Backed (before.map Prod.fst) x.2.1 x.2.2

namespace Closed

theorem congr (hs : setting.Closed s) (hcache : t.cache = s.cache)
    (hlist : t.registrations = s.registrations) : setting.Closed t where
  coherent := hs.coherent.congr hcache hlist
  asked := hlist ▸ hs.asked
  backed := hlist ▸ hs.backed

theorem log (hs : setting.Closed s) {e : Event} (he : e.registration? = none) :
    setting.Closed (s.log e) :=
  hs.congr rfl (by rw [State.registrations_log, he]; exact List.append_nil _)

theorem keys_eq (hs : setting.Closed s) : s.cache.map (·.key) = s.registrations.map Prod.fst := by
  have h := congrArg (List.map Prod.fst) hs.coherent.listed
  rwa [List.map_map, List.map_map] at h

theorem adopt (hs : setting.Closed s) {m : CachedModule Value} {specifier : String}
    (file : Option Path) {origin : Option Path} (hkey : m.key = Request.key ⟨specifier, origin⟩)
    (new : s.cache.get? m.key = none)
    (backed : setting.Backed (s.cache.map (·.key)) specifier m.source) :
    setting.Closed (s.adopt m specifier file) where
  coherent := hs.coherent.adopt _ _ new
  asked x hx := by
    rw [State.registrations_adopt] at hx
    rcases List.mem_append.1 hx with hx | hx
    · exact hs.asked x hx
    · rw [List.mem_singleton.1 hx]
      exact ⟨origin, hkey⟩
  backed before x after h := by
    rw [State.registrations_adopt] at h
    rcases List.eq_nil_or_concat after with rfl | ⟨after, last, rfl⟩
    · obtain ⟨hbefore, hx⟩ := List.append_inj' h rfl
      cases hx
      rw [hs.keys_eq, hbefore] at backed
      exact backed
    · rw [List.concat_eq_append, ← List.cons_append, ← List.append_assoc] at h
      exact hs.backed before x after (List.append_inj' h rfl).1

/-- A module that is backed by the cache may be put there. -/
theorem register (hs : setting.Closed s) (locate : String → Option Path) {m : CachedModule Value}
    (hkey : m.key = r.key) (backed : setting.Backed (s.cache.map (·.key)) r.specifier m.source) :
    setting.Closed (setting.register locate m r.specifier s).2 := by
  cases htaken : s.cache.get? m.key with
  | some taken =>
    rw [register_of_taken htaken]
    exact hs
  | none =>
    rw [register_of_new htaken]
    exact hs.adopt _ hkey htaken backed

end Closed

/-- Whatever comes of a computation, it keeps the cache closed. -/
def Keeping (setting : Setting) ⦃α : Type⦄ (x : Eval α) : Prop :=
  ∀ s, setting.Closed s → setting.Closed (x s).2

namespace Keeping

theorem change (setting : Setting) :
    setting.Change fun s t => setting.Closed s → setting.Closed t where
  refl _ hs := hs
  trans first next hs := next (first hs)
  counted _ hs := hs.congr rfl rfl
  exported _ _ _ hs := hs.congr rfl rfl
  linked _ _ hs := hs.congr rfl rfl
  imported s files _ hs := by
    have hrecorded : setting.Closed { s with dependencies := s.dependencies ++ files } :=
      hs.congr rfl rfl
    exact hrecorded.log rfl
  read _ _ _ _ _ hs := hs.log rfl

/-- A load keeps the cache closed. The module that it leads to is backed by the cache then. -/
theorem loadModule (hserve : ∀ r, setting.Keeping (serve r)) (hanswers : setting.Answers serve)
    {outcome : Except Stop (Value × ModuleSource)}
    (h : setting.loadModule (setting.loader serve) r s = (outcome, t)) (hs : setting.Closed s) :
    setting.Closed t ∧ ∀ v source, outcome = .ok (v, source) →
      setting.Backed (t.cache.map (·.key)) r.specifier source := by
  have hfile := (change setting).runFile hserve
  have hown := (change setting).ownModule hserve r.specifier
  cases loads_iff.2 h with
  | @resolved file v u found run =>
    have hrun : setting.Closed u := (hfile file).change run (hs.log rfl)
    obtain ⟨c, htext, hasked⟩ := has_of_runFile hanswers run
    have hleft : setting.Closed (u.log (.left ⟨file, r.specifier⟩)) := hrun.log rfl
    refine ⟨hleft.congr rfl rfl, fun v' source hout => ?_⟩
    cases hout
    exact .script (.resolved file) htext hasked
  | @resolvedFailed file e _ found run | @resolvedStopped file _ _ found run =>
    refine ⟨(hfile file).change run (hs.log rfl), fun v source hout => ?_⟩
    cases hout
  | own missing own =>
    refine ⟨hown.change own hs, fun v source hout => ?_⟩
    cases hout
    rcases ownModule_eq_loaded.1 own with ⟨module, hbuiltin, _⟩ | ⟨hforeign, p, hsearch, hrun⟩
    · exact .builtIn hbuiltin
    · obtain ⟨c, htext, hasked⟩ := has_of_runFile hanswers hrun
      exact .script (.hosted hforeign hsearch) htext hasked
  | ownFailed _ own | unresolved _ own =>
    refine ⟨hown.change own hs, fun v source hout => ?_⟩
    cases hout

theorem serving (hserve : ∀ r, setting.Keeping (serve r)) (hanswers : setting.Answers serve)
    (r : Request) : setting.Keeping (setting.serve (setting.loader serve) r) := by
  intro s hs
  have hpush : setting.Closed (s.push r.key) := hs.congr rfl rfl
  generalize hout : setting.serve (setting.loader serve) r s = outcome
  cases serves_iff.2 hout with
  | cached | cycle => exact hs
  | failed _ _ load => exact (loadModule hserve hanswers load hpush).1.congr rfl rfl
  | @loaded v source u _ _ load =>
    obtain ⟨hclosed, hbacked⟩ := loadModule hserve hanswers load hpush
    have hpop : setting.Closed u.pop := hclosed.congr rfl rfl
    exact hpop.register _ rfl (hbacked v source rfl)

end Keeping

/-- After a module was put into the cache, or its key was taken, there is one under its key. -/
theorem has_register (locate : String → Option Path) (m : CachedModule Value)
    (specifier : String) (s : State) :
    (setting.register locate m specifier s).2.Has m.key := by
  cases htaken : s.cache.get? m.key with
  | some taken =>
    rw [register_of_taken htaken]
    obtain ⟨hmem, hkey⟩ := Cache.mem_of_get? htaken
    exact List.mem_map.2 ⟨taken, hmem, hkey⟩
  | none =>
    rw [register_of_new htaken]
    exact List.mem_map.2 ⟨m, List.mem_append_right _ List.mem_cons_self, rfl⟩

/-- A request that is answered has its key in the cache. -/
theorem has_of_serve {loader : Loader} (h : setting.serve loader r s = (.ok v, t)) :
    t.Has r.key := by
  cases serves_iff.2 h with
  | @cached m found =>
    obtain ⟨hmem, hkey⟩ := Cache.mem_of_get? found
    exact List.mem_map.2 ⟨m, hmem, hkey⟩
  | @loaded _ source u => exact has_register loader.locate ⟨r.key, v, source⟩ r.specifier u.pop

theorem answers_require (setting : Setting) (n : Nat) : setting.Answers (setting.require n) where
  evolving := setting.evolves_require n
  has {r s v t} h := by
    cases n with
    | zero => cases h
    | succ n => exact has_of_serve h

/-- Serving a request keeps the cache closed under imports. -/
theorem Keeping.require (setting : Setting) (n : Nat) (r : Request) :
    setting.Keeping (setting.require n r) := by
  induction n generalizing r with
  | zero => exact fun s hs => hs
  | succ n ih => exact serving ih (setting.answers_require n) r

/-- The module under the first key is a script that asks for the second key. -/
inductive Imports (setting : Setting) (s : State) : String → String → Prop where
  | intro {key specifier spec : String} {source : ModuleSource} {p : Path} {c : Chunk}
      (listed : (key, specifier, source) ∈ s.registrations)
      (script : setting.ScriptOf specifier source p) (text : setting.Reads p c)
      (asked : spec ∈ c.requests) : Imports setting s key (Request.key ⟨spec, some p⟩)

namespace Closed

/-- What a module imports was put into the cache before it. -/
theorem idxOf_lt (hs : setting.Closed s) {key key' : String} (h : setting.Imports s key key') :
    (s.registrations.map Prod.fst).idxOf key' < (s.registrations.map Prod.fst).idxOf key := by
  obtain ⟨listed, script, text, asked⟩ := h
  obtain ⟨before, after, heq⟩ := List.append_of_mem listed
  have hnodup := hs.coherent.distinct_registrations
  cases hs.backed before _ after heq with
  | builtIn builtin =>
    cases script with
    | hosted foreign =>
      rw [foreign] at builtin
      cases builtin
  | script script' text' imports =>
    cases script.unique script'
    cases text.unique text'
    have hbefore := imports _ asked
    rw [heq, List.map_append, List.map_cons] at hnodup ⊢
    have hnew : key ∉ before.map Prod.fst := fun hin =>
      (List.nodup_append.1 hnodup).2.2 key hin key List.mem_cons_self rfl
    rw [List.idxOf_append_of_mem hbefore, List.idxOf_append_of_notMem hnew, List.idxOf_cons_self,
      Nat.add_zero]
    exact List.idxOf_lt_length_of_mem hbefore

/-- No chain of imports comes back to where it began. -/
theorem acyclic (hs : setting.Closed s) (key : String) :
    ¬ Relation.TransGen (setting.Imports s) key key := by
  have hlt : ∀ {key key'}, Relation.TransGen (setting.Imports s) key key' →
      (s.registrations.map Prod.fst).idxOf key' < (s.registrations.map Prod.fst).idxOf key := by
    intro key key' h
    induction h with
    | single h => exact hs.idxOf_lt h
    | tail _ h ih => exact Nat.lt_trans (hs.idxOf_lt h) ih
  exact fun h => Nat.lt_irrefl _ (hlt h)

end Closed

end Setting

end ScriptBuild
