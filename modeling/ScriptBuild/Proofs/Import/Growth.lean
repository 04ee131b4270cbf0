import ScriptBuild.Proofs.Import.Nesting

/-!
# What only grows

Running scripts adds to the records, the flags, the exported names and the cache, and takes nothing
away, also while loads fail. Main statements: `Evolves.grows` says so of what a whole evaluation
does, and `Within.grows` of the way from a moment inside of nested loads to the end around them.
-/

namespace ScriptBuild

open Script (Chunk Expr Statement)

/-- What the first state has is in the second one as it was: the lists go on where they ended, and a
module in the cache stands under its key. -/
structure State.Grows (s t : State) : Prop where
  dependencies : s.dependencies <+: t.dependencies
  linkFlags : s.linkFlags <+: t.linkFlags
  cFlags : s.cFlags <+: t.cFlags
  exported : s.exports.names <+: t.exports.names
  cached : ∀ key m, s.cache.get? key = some m → t.cache.get? key = some m

namespace State.Grows

variable {s t u : State}

/-- A change that records files, and otherwise changes none of what grows. -/
theorem of_recorded (files : List Path) (dependencies : t.dependencies = s.dependencies ++ files)
    (linkFlags : t.linkFlags = s.linkFlags) (cFlags : t.cFlags = s.cFlags)
    (exports : t.exports = s.exports) (cache : t.cache = s.cache) : s.Grows t where
  dependencies := dependencies ▸ List.prefix_append _ _
  linkFlags := linkFlags ▸ List.prefix_rfl
  cFlags := cFlags ▸ List.prefix_rfl
  exported := exports ▸ List.prefix_rfl
  cached _ _ found := cache ▸ found

/-- A change of none of what grows. -/
theorem of_kept (dependencies : t.dependencies = s.dependencies)
    (linkFlags : t.linkFlags = s.linkFlags) (cFlags : t.cFlags = s.cFlags)
    (exports : t.exports = s.exports) (cache : t.cache = s.cache) : s.Grows t :=
  of_recorded [] (by rw [dependencies, List.append_nil]) linkFlags cFlags exports cache

theorem refl (s : State) : s.Grows s :=
  of_kept rfl rfl rfl rfl rfl

theorem trans (h : s.Grows t) (h' : t.Grows u) : s.Grows u where
  dependencies := h.dependencies.trans h'.dependencies
  linkFlags := h.linkFlags.trans h'.linkFlags
  cFlags := h.cFlags.trans h'.cFlags
  exported := h.exported.trans h'.exported
  cached key m found := h'.cached key m (h.cached key m found)

theorem inject (s : State) (cFlags linkFlags : List String) :
    s.Grows (s.inject cFlags linkFlags) where
  dependencies := List.prefix_rfl
  linkFlags := List.prefix_append _ _
  cFlags := List.prefix_append _ _
  exported := List.prefix_rfl
  cached _ _ found := found

theorem define (s : State) (name : String) (c : Constant) :
    s.Grows { s with exports := s.exports.define name c } where
  dependencies := List.prefix_rfl
  linkFlags := List.prefix_rfl
  cFlags := List.prefix_rfl
  exported := by
    rw [Exports.names_define]
    split
    · exact List.prefix_rfl
    · exact List.prefix_append _ _
  cached _ _ found := found

theorem adopt (s : State) (m : CachedModule Value) (specifier : String) (file : Option Path) :
    s.Grows (s.adopt m specifier file) where
  dependencies := List.prefix_append _ _
  linkFlags := List.prefix_rfl
  cFlags := List.prefix_rfl
  exported := List.prefix_rfl
  cached _ _ found := Cache.get?_append found [m]

/-- The stack of the loads is not what grows. -/
theorem of_push {key : String} (h : (s.push key).Grows t) : s.Grows t :=
  ⟨h.dependencies, h.linkFlags, h.cFlags, h.exported, h.cached⟩

theorem pop (h : s.Grows t) : s.Grows t.pop :=
  ⟨h.dependencies, h.linkFlags, h.cFlags, h.exported, h.cached⟩

end State.Grows

/-- The state after a moment: its request was served, if it makes one. -/
def Moment.after (serve : Request → Eval Value) (m : Moment) : State :=
  match m.request with
  | some r => (serve r m.state).2
  | none => m.state

namespace Setting

variable {setting : Setting} {r : Request} {s t u : State} {m : Moment}

/-- Running scripts takes nothing away. -/
theorem Evolves.grows (h : setting.Evolves s t) : s.Grows t := by
  induction h with
  | refl s => exact .refl s
  | trans _ _ ih₁ ih₂ => exact ih₁.trans ih₂
  | counted | read | entered | left => exact .of_kept rfl rfl rfl rfl rfl
  | exported s name c => exact .define s name c
  | linked s flags => exact .inject s [] flags
  | imported => exact .of_recorded _ rfl rfl rfl rfl rfl
  | abandoned _ _ _ ih => exact ih.of_push.pop
  | completed v _ _ _ _ ih => exact ih.of_push.pop.trans (.adopt _ _ _ _)

theorem Evolving.grows {α : Type} {x : Eval α} (hx : setting.Evolving x) :
    Eval.Makes State.Grows x :=
  fun s => (hx s).grows

theorem grows_requireModule (setting : Setting) (r : Request) :
    Eval.Makes State.Grows (setting.requireModule r) :=
  Evolving.grows (setting.evolves_requireModule r)

/-- The request that a moment makes takes nothing away. -/
theorem grows_after (setting : Setting) (m : Moment) :
    m.state.Grows (m.after setting.requireModule) := by
  obtain ⟨_ | r, s⟩ := m
  · exact .refl s
  · exact setting.grows_requireModule r s

theorem change_grows (setting : Setting) : setting.Change State.Grows where
  refl := .refl
  trans := .trans
  counted _ := .of_kept rfl rfl rfl rfl rfl
  exported := .define
  linked s flags := .inject s [] flags
  imported _ _ _ := .of_recorded _ rfl rfl rfl rfl rfl
  read _ _ _ _ _ := .of_kept rfl rfl rfl rfl rfl

section Onward

variable {S : State → State → Prop} {f : Frame}

/-- What goes on after a computation makes the change too. -/
theorem Change.bind_end (hS : setting.Change S) {α β : Type} {x : Eval α} {g : α → Eval β}
    (h : S u (x s).2) (hg : ∀ a t, x s = (.ok a, t) → S t (g a t).2) : S u ((x >>= g) s).2 := by
  rw [Eval.bind_apply]
  rcases hout : x s with ⟨e | a, t⟩
  · rwa [hout] at h
  · rw [hout] at h
    exact hS.trans h (hg a t hout)

mutual

/-- From each of its moments on, an expression makes the change until it ends. -/
theorem Change.of_passes (hS : setting.Change S) (hf : f.setting = setting)
    (hserve : ∀ r, Eval.Makes S (f.serve r)) : ∀ {e : Expr} {s : State} {m : Moment},
    f.Passes e s m → S (m.after f.serve) (f.eval e s).2
  | _, _, _, .finished _ _ => hS.refl _
  | _, _, _, .asked specifier s => by
    rw [Frame.eval, Frame.require_snd]
    exact hS.refl _
  | .field _ name, _, _, .target inner =>
    hS.bind_end (of_passes hS hf hserve inner) fun v t _ => by
      cases v.field? name <;> exact hS.refl t
  | .table fields, _, _, .field inner => by
    have hfields := of_passesAll hS hf hserve inner
    rw [Frame.evalArguments_map_snd, Eval.map_snd] at hfields
    exact hS.bind_end hfields fun _ t _ => hS.counted t
  | .call function _, _, _, .argument inner =>
    hS.bind_end (of_passesAll hS hf hserve inner) fun values t _ =>
      hS.congruence.call (hS.related hf) function values t

theorem Change.of_passesAll (hS : setting.Change S) (hf : f.setting = setting)
    (hserve : ∀ r, Eval.Makes S (f.serve r)) : ∀ {es : List Expr} {s : State} {m : Moment},
    f.PassesAll es s m → S (m.after f.serve) (f.evalArguments es s).2
  | _ :: es, _, _, .first inner =>
    hS.bind_end (of_passes hS hf hserve inner) fun _ t _ =>
      hS.map (hS.evalArguments hf hserve es) _ t
  | _, _, _, .later before inner => by
    rw [Frame.evalArguments, Eval.bind_of_ok before]
    exact hS.bind_end (of_passesAll hS hf hserve inner) fun _ t _ => hS.refl t

end

theorem Change.of_advance (hS : setting.Change S) (hf : f.setting = setting) {st : Statement}
    (h : S u (Frame.eval { f with position := st.position } st.action.expr s).2) :
    S u (f.advance st s).2 :=
  hS.bind_end h fun v t _ => hS.bind_end
    (@perform _ { f with position := st.position } _ hS hf st.action v t) fun _ t _ => hS.refl t

/-- From each of its moments on, a script makes the change until it ends. -/
theorem Change.of_passesRun (hS : setting.Change S) {statements : List Statement}
    (h : Frame.PassesRun f statements s m) (hf : f.setting = setting)
    (hserve : ∀ r, Eval.Makes S (f.serve r)) : S (m.after f.serve) (f.run statements s).2 := by
  have onward : ∀ {f : Frame} {st : Statement} {rest : List Statement} {u s : State},
      f.setting = setting → (∀ r, Eval.Makes S (f.serve r)) → S u (f.advance st s).2 →
      S u (f.run (st :: rest) s).2 := by
    intro f st rest u s hf hserve h
    rw [Frame.run_cons]
    refine hS.bind_end h fun next t hnext => ?_
    rcases next with v | g
    · exact hS.refl t
    · obtain ⟨locals, rfl⟩ := Frame.advance_frame hnext
      exact hS.congruence.run (@related _ { f with locals } _ hS hf) rest
        (fun specifier _ => hserve ⟨specifier, f.origin⟩) t
  induction h with
  | @evaluated f st rest s m inner =>
    have heval := @of_passes _ _ { f with position := st.position } hS hf hserve _ _ _ inner
    exact onward hf hserve (hS.of_advance hf heval)
  | performed => exact onward hf hserve (hS.refl _)
  | next before _ ih =>
    rw [Frame.run_cons, Eval.bind_of_ok before]
    obtain ⟨locals, rfl⟩ := Frame.advance_frame before
    exact ih hf hserve

end Onward

theorem grows_register (locate : String → Option Path) (m : CachedModule Value)
    (specifier : String) (s : State) : s.Grows (setting.register locate m specifier s).2 := by
  rcases hkey : s.cache.get? m.key with _ | taken
  · rw [register_of_new hkey]
    exact .adopt s m specifier _
  · rw [register_of_taken hkey]
    exact .refl s

theorem ChunkPasses.grows {c : Chunk} (h : setting.ChunkPasses c s m) :
    (m.after setting.requireModule).Grows (setting.execute setting.requireModule c s).2 :=
  (change_grows setting).of_passesRun h rfl setting.grows_requireModule

theorem FilePasses.grows {p : Path} (h : setting.FilePasses p s m) :
    (m.after setting.requireModule).Grows (setting.runFile setting.requireModule p s).2 := by
  have hS := change_grows setting
  cases h with
  | started => exact hS.runFile setting.grows_requireModule p s
  | read =>
    exact hS.bind_end (.refl _) fun c t _ => hS.execute setting.grows_requireModule c t
  | run loaded inner =>
    rw [runFile, Eval.bind_of_ok loaded]
    exact inner.grows

theorem OwnPasses.grows {specifier : String} (h : setting.OwnPasses specifier s m) :
    (m.after setting.requireModule).Grows
      (setting.ownModule setting.requireModule specifier s).2 := by
  cases h with
  | started => exact (change_grows setting).ownModule setting.grows_requireModule specifier s
  | hosted foreign searched inner =>
    rw [ownModule_of_template foreign searched, Eval.map_snd]
    exact inner.grows

theorem LoadPasses.grows (h : setting.LoadPasses r s m) : (m.after setting.requireModule).Grows
    (setting.loadModule (setting.loader setting.requireModule) r s).2 := by
  generalize hout : setting.loadModule (setting.loader setting.requireModule) r s = outcome
  cases h with
  | @resolved file m found inner =>
    have hinner := inner.grows
    cases loads_iff.2 hout with
    | resolved found' run =>
      cases found.symm.trans found'
      change setting.runFile setting.requireModule file _ = _ at run
      rw [run] at hinner
      exact hinner.trans (.of_recorded [file] rfl rfl rfl rfl rfl)
    | resolvedFailed found' run | resolvedStopped found' run =>
      cases found.symm.trans found'
      change setting.runFile setting.requireModule file _ = _ at run
      rwa [run] at hinner
    | own missing | ownFailed missing | unresolved missing => cases found.symm.trans missing
  | own missing inner =>
    have hinner := inner.grows
    cases loads_iff.2 hout with
    | resolved found | resolvedFailed found | resolvedStopped found =>
      cases found.symm.trans missing
    | own _ own | ownFailed _ own | unresolved _ own =>
      change setting.ownModule setting.requireModule _ _ = _ at own
      rwa [own] at hinner
  | ended =>
    rw [hout]
    exact .refl _

theorem During.grows (h : setting.During r s m) :
    (m.after setting.requireModule).Grows (setting.requireModule r s).2 := by
  have hload := h.passes.grows
  rw [requireModule_eq]
  generalize hout : setting.serve (setting.loader setting.requireModule) r s = outcome
  cases serves_iff.2 hout with
  | cached found =>
    rw [h.fresh] at found
    cases found
  | cycle _ busy => exact absurd busy h.free
  | failed _ _ load =>
    rw [load] at hload
    exact hload.pop
  | loaded _ _ load =>
    rw [load] at hload
    exact hload.pop.trans (grows_register _ _ _ _)

/-- However deep in the requests, nothing is taken away between the beginning and a moment, nor
between the moment and the end. -/
theorem Within.grows {top : Moment → Prop} (hstart : ∀ m, top m → s.Grows m.state)
    (hend : ∀ m, top m → (m.after setting.requireModule).Grows t) {outer : List Request}
    (h : setting.Within top outer m) :
    s.Grows m.state ∧ (m.after setting.requireModule).Grows t := by
  induction h with
  | direct passed => exact ⟨hstart _ passed, hend _ passed⟩
  | @nested outer r u m _ during ih =>
    obtain ⟨hbefore, hafter⟩ := ih
    obtain ⟨v, hbody, hm⟩ := during.passes.evolves
    have hload : u.Grows m.state := by
      rcases hm with hm | ⟨file, hm⟩ <;> rw [hm]
      · exact hbody.grows.of_push
      · exact hbody.grows.of_push.trans (.of_recorded [file] rfl rfl rfl rfl rfl)
    exact ⟨hbefore.trans hload, during.grows.trans hafter⟩

end Setting

end ScriptBuild
