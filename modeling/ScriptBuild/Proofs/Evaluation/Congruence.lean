import ScriptBuild.Evaluation.Chunk

/-!
# Congruences of evaluations

Evaluating an expression puts a few primitive computations together: it reads the state, numbers
instances, exports, links, imports constants and serves requests. A relation between computations
that holds of the primitives and is kept by putting them together therefore holds of whole chunks
that differ only in how requests are served and constants are imported (`Congruence.execute`). A
property of single computations is the case of a chunk and itself.
-/

namespace ScriptBuild

open Script (Builtin Chunk Expr Position Statement fieldRequests argumentRequests)

variable {R : ⦃α : Type⦄ → Eval α → Eval α → Prop}

/-- The relation holds of the primitive computations and is kept by putting computations
together. -/
structure Eval.Congruence (R : ⦃α : Type⦄ → Eval α → Eval α → Prop) : Prop where
  value : ∀ {α : Type} (a : α), R (pure a) (pure a)
  failure : ∀ {α : Type} (fault : EvaluationFault) (loc : SourceLocation),
    R (Eval.fail (.evaluation fault.message (some loc)) : Eval α)
      (Eval.fail (.evaluation fault.message (some loc)))
  state : R (get : Eval State) get
  counted : R Eval.newInstance Eval.newInstance
  exported : ∀ name c,
    R (modify fun s => { s with exports := s.exports.define name c } : Eval PUnit)
      (modify fun s => { s with exports := s.exports.define name c })
  linked : ∀ flags, R (modify (·.inject [] flags) : Eval PUnit) (modify (·.inject [] flags))
  sequence : ∀ {α β : Type} {x x' : Eval α} {f f' : α → Eval β}, R x x' →
    (∀ a, R (f a) (f' a)) → R (x >>= f) (x' >>= f')
  relocated : ∀ {α : Type} (loc : SourceLocation) {x x' : Eval α}, R x x' →
    R (x.mapError (·.locatedAt loc)) (x'.mapError (·.locatedAt loc))

/-- Whatever comes of a computation, it makes this change to the state. -/
def Eval.Makes (S : State → State → Prop) ⦃α : Type⦄ (x : Eval α) : Prop :=
  ∀ s, S s (x s).2

theorem Eval.Makes.change {S : State → State → Prop} {α : Type} {x : Eval α}
    (hx : Eval.Makes S x) {s t : State} {outcome : Except Stop α} (h : x s = (outcome, t)) :
    S s t := by
  have hstate := hx s
  rwa [h] at hstate

/-- Another error leaves the same state. -/
theorem Eval.mapError_snd {α : Type} (g : ModuleError → ModuleError) (x : Eval α) (s : State) :
    (x.mapError g s).2 = (x s).2 := by
  unfold Eval.mapError
  rcases x s with ⟨(_ | _ | _) | _, _⟩ <;> rfl

/-- Another value leaves the same state. -/
theorem Eval.map_snd {α β : Type} (f : α → β) (x : Eval α) (s : State) :
    ((f <$> x) s).2 = (x s).2 := by
  rw [map_apply]
  rcases x s with ⟨_ | _, _⟩ <;> rfl

/-- The location that an error gets is no change of the state. -/
theorem Frame.require_snd (f : Frame) (specifier : String) (s : State) :
    (f.require specifier s).2 = (f.serve ⟨specifier, f.origin⟩ s).2 := by
  unfold Frame.require
  split
  · rw [Eval.mapError_snd]
  · rfl

theorem Eval.Makes.mapError {S : State → State → Prop} {α : Type} {x : Eval α}
    (hx : Eval.Makes S x) (g : ModuleError → ModuleError) : Eval.Makes S (x.mapError g) := by
  intro s
  rw [Eval.mapError_snd]
  exact hx s

theorem Eval.Makes.bind {S : State → State → Prop} (trans : ∀ {s t u}, S s t → S t u → S s u)
    {α β : Type} {x : Eval α} {f : α → Eval β} (hx : Eval.Makes S x)
    (hf : ∀ a, Eval.Makes S (f a)) : Eval.Makes S (x >>= f) := by
  intro s
  rw [Eval.bind_apply]
  rcases hout : x s with ⟨e | a, t⟩
  · exact hx.change hout
  · exact trans (hx.change hout) (hf a t)

/-- A change of the state that the primitive computations make, and that is made again by making it
twice, is made by all that is put together of them. -/
theorem Eval.Congruence.of_change {S : State → State → Prop} (refl : ∀ s, S s s)
    (trans : ∀ {s t u}, S s t → S t u → S s u)
    (counted : ∀ s : State, S s { s with nextInstance := s.nextInstance + 1 })
    (exported : ∀ (s : State) name c, S s { s with exports := s.exports.define name c })
    (linked : ∀ (s : State) flags, S s (s.inject [] flags)) :
    Eval.Congruence fun _ x _ => Eval.Makes S x where
  value _ s := refl s
  failure _ _ s := refl s
  state s := refl s
  counted s := counted s
  exported name c s := exported s name c
  linked flags s := linked s flags
  sequence hx hf := Eval.Makes.bind (S := S) trans hx hf
  relocated _ _ _ hx := hx.mapError _

/-- Two frames at one statement of one chunk, in which imports of constants are related. -/
structure Frame.Related (R : ⦃α : Type⦄ → Eval α → Eval α → Prop) (f f' : Frame) : Prop where
  origin : f'.origin = f.origin
  locals : f'.locals = f.locals
  position : f'.position = f.position
  constants : ∀ locals position function directories target,
    R (Frame.importConstants { f with locals, position } function directories target)
      (Frame.importConstants { f' with locals, position } function directories target)

namespace Frame.Related

variable {f f' : Frame}

theorem location (h : Related R f f') : f'.location = f.location := by
  simp [Frame.location, h.origin, h.position]

theorem at_position (h : Related R f f') (position : Position) :
    Related R { f with position } { f' with position } where
  origin := h.origin
  locals := h.locals
  position := rfl
  constants := h.constants

theorem with_local (h : Related R f f') (x : String × Value) :
    Related R { f with locals := x :: f.locals } { f' with locals := x :: f'.locals } where
  origin := h.origin
  locals := congrArg (x :: ·) h.locals
  position := h.position
  constants := h.constants

theorem import_constants (h : Related R f f') (function : Builtin) (directories : List Path)
    (target : String) :
    R (f.importConstants function directories target)
      (f'.importConstants function directories target) := by
  obtain ⟨setting', serve', origin', locals', position'⟩ := f'
  obtain ⟨rfl, rfl, rfl, constants⟩ := h
  exact constants f.locals f.position function directories target

end Frame.Related

theorem Eval.Congruence.map (hR : Congruence R) {α β : Type} {x x' : Eval α} (hx : R x x')
    (g : α → β) : R (g <$> x) (g <$> x') := by
  rw [← bind_pure_comp, ← bind_pure_comp]
  exact hR.sequence hx fun a => hR.value (g a)

namespace Eval.Congruence

variable (hR : Congruence R) {f f' : Frame} (hf : f.Related R f')
include hR hf

theorem fail {α : Type} (fault : EvaluationFault) : R (f.fail fault : Eval α) (f'.fail fault) := by
  unfold Frame.fail
  rw [hf.location]
  exact hR.failure _ _

theorem lift {α : Type} (outcome : Except EvaluationFault α) :
    R (f.lift outcome) (f'.lift outcome) := by
  cases outcome with
  | ok a => exact hR.value a
  | error fault => exact hR.fail hf fault

theorem lookup (name : String) : R (f.lookup name) (f'.lookup name) := by
  unfold Frame.lookup
  rw [hf.locals]
  refine hR.sequence hR.state fun s => ?_
  split
  · exact hR.value _
  · exact hR.fail hf _

theorem require {specifier : String}
    (hserve : R (f.serve ⟨specifier, f.origin⟩) (f'.serve ⟨specifier, f.origin⟩)) :
    R (f.require specifier) (f'.require specifier) := by
  simp only [Frame.require, hf.origin, hf.location]
  split
  · exact hR.relocated _ hserve
  · exact hserve

theorem exporting (name : String) (v : Value) : R (f.export name v) (f'.export name v) := by
  unfold Frame.export
  split
  · exact hR.exported _ _
  · exact hR.fail hf _

theorem linking (v : Value) : R (f.link v) (f'.link v) := by
  unfold Frame.link
  split
  · exact hR.linked _
  · exact hR.linked _
  · exact hR.fail hf _

theorem callBuiltin (function : Builtin) (arguments : List Value) :
    R (f.callBuiltin function arguments) (f'.callBuiltin function arguments) := by
  have hinclude : ∀ function, R (f.callInclude function arguments)
      (f'.callInclude function arguments) := by
    intro function
    unfold Frame.callInclude
    split
    · refine hR.sequence (hR.lift hf _) fun extra => hR.sequence hR.state fun s => ?_
      exact hf.import_constants _ _ _
    · exact hR.fail hf _
  have hassign : R (f.callAssign arguments) (f'.callAssign arguments) := by
    have hmerge : R (f.lift (mergeTables 1 [] arguments) >>= fun fields =>
          Eval.newInstance >>= fun number => pure (Value.table number fields))
        (f'.lift (mergeTables 1 [] arguments) >>= fun fields =>
          Eval.newInstance >>= fun number => pure (Value.table number fields)) :=
      hR.sequence (hR.lift hf _) fun fields => hR.sequence hR.counted fun number => hR.value _
    unfold Frame.callAssign
    split
    · exact hR.sequence (hR.fail hf _) fun _ => hmerge
    · exact hmerge
  cases function with
  | assign => exact hassign
  | includeHeader | includeText => exact hinclude _

theorem call (name : String) (arguments : List Value) :
    R (f.call name arguments) (f'.call name arguments) := by
  unfold Frame.call
  split
  · exact hR.callBuiltin hf _ arguments
  · exact hR.fail hf _

end Eval.Congruence

mutual

/-- Related frames evaluate an expression alike if they serve its requests alike. -/
theorem Eval.Congruence.eval (hR : Congruence R) {f f' : Frame} (hf : f.Related R f') :
    ∀ e : Expr, (∀ specifier ∈ e.requests,
      R (f.serve ⟨specifier, f.origin⟩) (f'.serve ⟨specifier, f.origin⟩)) → R (f.eval e) (f'.eval e)
  | .nil, _ => hR.value _
  | .bool _, _ => hR.value _
  | .int _, _ => hR.value _
  | .str _, _ => hR.value _
  | .name name, _ => hR.lookup hf name
  | .field target name, hserve => by
    refine hR.sequence (hR.eval hf target hserve) fun v => ?_
    split
    · exact hR.value _
    · exact hR.fail hf _
  | .table fields, hserve =>
    hR.sequence (hR.evalFields hf fields hserve) fun _ =>
      hR.sequence hR.counted fun _ => hR.value _
  | .require specifier, hserve => hR.require hf (hserve specifier (List.mem_singleton_self _))
  | .call name arguments, hserve =>
    hR.sequence (hR.evalArguments hf arguments hserve) fun values => hR.call hf name values

theorem Eval.Congruence.evalFields (hR : Congruence R) {f f' : Frame} (hf : f.Related R f') :
    ∀ fields : List (String × Expr), (∀ specifier ∈ fieldRequests fields,
      R (f.serve ⟨specifier, f.origin⟩) (f'.serve ⟨specifier, f.origin⟩)) →
      R (f.evalFields fields) (f'.evalFields fields)
  | [], _ => hR.value _
  | (_, e) :: fields, hserve =>
    hR.sequence (hR.eval hf e fun s hs => hserve s (List.mem_append_left _ hs)) fun _ =>
      hR.sequence (hR.evalFields hf fields fun s hs => hserve s (List.mem_append_right _ hs))
        fun _ => hR.value _

theorem Eval.Congruence.evalArguments (hR : Congruence R) {f f' : Frame} (hf : f.Related R f') :
    ∀ arguments : List Expr, (∀ specifier ∈ argumentRequests arguments,
      R (f.serve ⟨specifier, f.origin⟩) (f'.serve ⟨specifier, f.origin⟩)) →
      R (f.evalArguments arguments) (f'.evalArguments arguments)
  | [], _ => hR.value _
  | e :: arguments, hserve =>
    hR.sequence (hR.eval hf e fun s hs => hserve s (List.mem_append_left _ hs)) fun _ =>
      hR.sequence (hR.evalArguments hf arguments fun s hs => hserve s (List.mem_append_right _ hs))
        fun _ => hR.value _

end

namespace Eval.Congruence

/-- Related frames run statements alike if they serve the requests in them alike. -/
theorem run (hR : Congruence R) {f f' : Frame} (hf : f.Related R f') (statements : List Statement)
    (hserve : ∀ specifier ∈ statements.flatMap (·.requests),
      R (f.serve ⟨specifier, f.origin⟩) (f'.serve ⟨specifier, f.origin⟩)) :
    R (f.run statements) (f'.run statements) := by
  induction statements generalizing f f' with
  | nil => exact hR.value _
  | cons s statements ih =>
    have hhere := hf.at_position s.position
    have heval := hR.eval hhere s.action.expr fun specifier hm =>
      hserve specifier (List.mem_flatMap.2 ⟨s, List.mem_cons_self, hm⟩)
    have hmore : ∀ specifier ∈ statements.flatMap (·.requests),
        R (f.serve ⟨specifier, f.origin⟩) (f'.serve ⟨specifier, f.origin⟩) := fun specifier hm =>
      hserve specifier (by rw [List.flatMap_cons]; exact List.mem_append_right _ hm)
    unfold Frame.run
    refine hR.sequence heval fun v => ?_
    split
    · exact ih (hf.with_local _) hmore
    · exact hR.sequence (hR.exporting hhere _ _) fun _ => ih hf hmore
    · exact hR.sequence (hR.linking hhere _) fun _ => ih hf hmore
    · exact ih hf hmore
    · exact hR.value _

/-- A chunk is run alike in two settings that import constants alike and serve its requests
alike. -/
theorem execute (hR : Congruence R) {setting setting' : Setting}
    {serve serve' : Request → Eval Value} {c : Chunk}
    (hconstants : ∀ f : Frame, f.setting = setting → ∀ function directories target,
      R (f.importConstants function directories target)
        (Frame.importConstants { f with setting := setting', serve := serve' } function
          directories target))
    (hserve : ∀ specifier ∈ c.requests,
      R (serve ⟨specifier, c.origin⟩) (serve' ⟨specifier, c.origin⟩)) :
    R (setting.execute serve c) (setting'.execute serve' c) := by
  have hf : Frame.Related R ⟨setting, serve, c.origin, [], .start⟩
      ⟨setting', serve', c.origin, [], .start⟩ :=
    ⟨rfl, rfl, rfl, fun locals position function directories target =>
      hconstants ⟨setting, serve, c.origin, locals, position⟩ rfl function directories target⟩
  exact hR.run hf c.statements hserve

end Eval.Congruence

end ScriptBuild
