import ScriptBuild.Proofs.Evaluation.Congruence
import ScriptBuild.Proofs.Evaluation.Include
import ScriptBuild.Proofs.Evaluation.Moments
import ScriptBuild.Proofs.Script.WellFormed

/-!
# Whose fault an error is

A script fails because the statement that is running is wrong, or because a request that it makes
fails; no statement catches an error. Main statements: `run_eq_error` finds the statement at which a
script stops, `fails_of_advance` says whose error it stops with, and `advance_of_stopped` that a
request that does not succeed stops the statement which makes it. `blame_of_run` keeps the cause
alone.
-/

namespace ScriptBuild

open Script (Action Builtin Expr Statement fieldsUnknown argumentsUnknown)

/-- The fault is not that a function is missing, unless it is one of these. -/
def EvaluationFault.Among (unknown : List String) : EvaluationFault → Prop
  | unknownFunction name => name ∈ unknown
  | _ => True

theorem EvaluationFault.Among.mono {fault : EvaluationFault} {unknown unknown' : List String}
    (h : fault.Among unknown) (hsub : unknown ⊆ unknown') : fault.Among unknown' := by
  cases fault with
  | unknownFunction name => exact hsub h
  | _ => trivial

/-- Whose fault an error is that comes out of moments: a statement of the script is wrong, or a
request that was made in one of them failed. -/
inductive Blame (serve : Request → Eval Value) (passes : Moment → Prop) : ErrorCause → Prop where
  | statement (fault : EvaluationFault) : Blame serve passes (.evaluation fault.message)
  | request {r : Request} {s t : State} {e : ModuleError} (asked : passes ⟨some r, s⟩)
      (failed : serve r s = (.error (.failed e), t)) : Blame serve passes e.cause

theorem Eval.Congruence.performing {R : ⦃α : Type⦄ → Eval α → Eval α → Prop}
    (hR : Eval.Congruence R) {f f' : Frame} (hf : f.Related R f') (a : Action) (v : Value) :
    R (f.perform a v) (f'.perform a v) := by
  cases a with
  | «local» | evaluate | «return» => exact hR.value ()
  | «export» name => exact hR.exporting hf name v
  | link => exact hR.linking hf v

theorem Blame.mono {serve : Request → Eval Value} {passes passes' : Moment → Prop}
    {cause : ErrorCause} (h : Blame serve passes cause) (hpasses : ∀ m, passes m → passes' m) :
    Blame serve passes' cause := by
  cases h with
  | statement fault => exact .statement fault
  | request asked failed => exact .request (hpasses _ asked) failed

namespace Frame

variable {f : Frame}

/-- The error about the running statement. -/
def faultError (f : Frame) (fault : EvaluationFault) : ModuleError :=
  .evaluation fault.message (some f.location)

/-- The error of a request after it left the running statement. -/
def passOn (f : Frame) (e : ModuleError) : ModuleError :=
  if f.origin.isSome then e.locatedAt f.location else e

@[simp] theorem passOn_cause (f : Frame) (e : ModuleError) : (f.passOn e).cause = e.cause := by
  unfold passOn
  split <;> rfl

/-- What stops a request after it left the running statement. -/
def passOnStop (f : Frame) : Stop → Stop
  | .failed e => .failed (f.passOn e)
  | stop => stop

/-- A request that does not succeed stops the statement. -/
theorem require_of_stopped {specifier : String} {s t : State} {stop : Stop}
    (h : f.serve ⟨specifier, f.origin⟩ s = (.error stop, t)) :
    f.require specifier s = (.error (f.passOnStop stop), t) := by
  unfold Frame.require
  split
  · next horigin =>
    cases stop with
    | failed e =>
      rw [passOnStop, passOn, if_pos horigin]
      exact Eval.mapError_eq_failed.2 ⟨e, h, rfl⟩
    | overflow | tooDeep => exact Eval.mapError_of_final h trivial _
  · next horigin =>
    cases stop with
    | failed e =>
      rw [passOnStop, passOn, if_neg horigin]
      exact h
    | overflow | tooDeep => exact h

/-- A request that fails gives the statement its error. -/
theorem require_eq_failed {specifier : String} {s t : State} {err : ModuleError} :
    f.require specifier s = (.error (.failed err), t) ↔
      ∃ e, f.serve ⟨specifier, f.origin⟩ s = (.error (.failed e), t) ∧ f.passOn e = err := by
  unfold Frame.require passOn
  split
  · exact Eval.mapError_eq_failed
  · simp

/-- The computation stops with nothing but an error about the running statement, or for good because
of an integer. -/
def Faults (f : Frame) (unknown : List String) {α : Type} (x : Eval α) : Prop :=
  ∀ ⦃s stop t⦄, x s = (.error stop, t) → stop = .overflow ∨
    ∃ fault : EvaluationFault, fault.Among unknown ∧ stop = .failed (f.faultError fault)

namespace Faults

variable {α β : Type} {unknown unknown' : List String}

theorem of_ok {x : Eval α} (h : ∀ s, ∃ a t, x s = (.ok a, t)) : f.Faults unknown x := by
  intro s stop t hout
  obtain ⟨a, u, hok⟩ := h s
  rw [hok] at hout
  cases hout

theorem bind {x : Eval α} {g : α → Eval β} (hx : f.Faults unknown x)
    (hg : ∀ a, f.Faults unknown (g a)) : f.Faults unknown (x >>= g) := by
  intro s stop t h
  rcases Eval.bind_eq_error.1 h with h | ⟨a, u, _, h⟩
  · exact hx h
  · exact hg a h

theorem pure (a : α) : f.Faults unknown (Pure.pure a : Eval α) :=
  .of_ok fun s => ⟨a, s, rfl⟩

theorem fail (fault : EvaluationFault) (h : fault.Among unknown) :
    f.Faults unknown (f.fail fault : Eval α) := by
  intro s stop t hout
  cases hout
  exact .inr ⟨fault, h, rfl⟩

theorem overflow : f.Faults unknown (throw .overflow : Eval α) := by
  intro s stop t hout
  cases hout
  exact .inl rfl

theorem lift {outcome : Except EvaluationFault α}
    (h : ∀ fault, outcome = .error fault → fault.Among unknown) :
    f.Faults unknown (f.lift outcome) := by
  cases outcome with
  | ok a => exact .pure a
  | error fault => exact .fail fault (h fault rfl)

theorem get : f.Faults unknown (MonadState.get : Eval State) :=
  .of_ok fun s => ⟨s, s, rfl⟩

theorem newInstance : f.Faults unknown Eval.newInstance :=
  .of_ok fun _ => ⟨_, _, rfl⟩

theorem changed (change : State → State) : f.Faults unknown (modify change : Eval PUnit) :=
  .of_ok fun _ => ⟨_, _, rfl⟩

theorem lookup (name : String) : f.Faults unknown (f.lookup name) := by
  refine get.bind fun s => ?_
  split
  · exact .pure _
  · exact .fail _ trivial

theorem importConstants (function : Builtin) (directories : List Path) (target : String) :
    f.Faults unknown (f.importConstants function directories target) := by
  unfold Frame.importConstants
  split
  · exact .fail _ trivial
  · exact .overflow
  · exact (Faults.changed _).bind fun _ => newInstance.bind fun _ => .pure _

theorem among_of_extraFlags {function : Builtin} {argument : Option Value}
    {fault : EvaluationFault} (h : extraFlags function argument = .error fault) :
    fault.Among unknown := by
  unfold extraFlags at h
  split at h <;> cases h
  trivial

theorem callInclude (function : Builtin) (arguments : List Value) :
    f.Faults unknown (f.callInclude function arguments) := by
  unfold Frame.callInclude
  split
  · exact (Faults.lift fun _ => among_of_extraFlags).bind fun _ => get.bind fun _ =>
      importConstants _ _ _
  · exact .fail _ trivial

theorem among_of_mergeTables {number : Nat} {fields : Fields Value} {values : List Value}
    {fault : EvaluationFault} (h : mergeTables number fields values = .error fault) :
    fault.Among unknown := by
  fun_induction mergeTables number fields values with
  | case1 => cases h
  | case2 number fields tableNumber more values ih => exact ih h
  | case3 =>
    cases h
    trivial

theorem callAssign (arguments : List Value) : f.Faults unknown (f.callAssign arguments) := by
  have hmerge : f.Faults unknown (f.lift (mergeTables 1 [] arguments) >>= fun fields =>
      Eval.newInstance >>= fun number => Pure.pure (Value.table number fields)) :=
    (Faults.lift fun _ => among_of_mergeTables).bind fun _ => newInstance.bind fun _ => .pure _
  unfold Frame.callAssign
  split
  · exact (Faults.fail (.tableExpected 1 "no value") trivial).bind fun _ => hmerge
  · exact hmerge

/-- A call fails for want of a function only if there is none of its name. -/
theorem call (name : String) (arguments : List Value) :
    f.Faults (if (Builtin.ofName? name).isSome then [] else [name]) (f.call name arguments) := by
  unfold Frame.call
  cases Builtin.ofName? name with
  | some function =>
    cases function with
    | assign => exact callAssign arguments
    | includeHeader | includeText => exact callInclude _ arguments
  | none => exact .fail (.unknownFunction name) List.mem_cons_self

theorem perform (a : Action) (v : Value) : f.Faults unknown (f.perform a v) := by
  cases a with
  | «local» | evaluate | «return» => exact .pure ()
  | «export» name =>
    show f.Faults unknown (f.export name v)
    unfold Frame.export
    split
    · exact .changed _
    · exact .fail _ trivial
  | link =>
    show f.Faults unknown (f.link v)
    unfold Frame.link
    split
    · exact .changed _
    · exact .changed _
    · exact .fail _ trivial

end Faults

/-- The error and the state with which an evaluation fails that passes through these moments and calls
these functions that there are not. -/
inductive Fails (f : Frame) (unknown : List String) (passes : Moment → Prop) :
    ModuleError → State → Prop where
  /-- The running statement is wrong. -/
  | fault {fault : EvaluationFault} (among : fault.Among unknown) (t : State) :
      Fails f unknown passes (f.faultError fault) t
  /-- A request fails. -/
  | request {q : Request} {u t : State} {e : ModuleError} (asked : passes ⟨some q, u⟩)
      (failed : f.serve q u = (.error (.failed e), t)) : Fails f unknown passes (f.passOn e) t

namespace Fails

variable {unknown unknown' : List String} {passes passes' : Moment → Prop} {e : ModuleError}
  {t : State}

theorem mono (h : f.Fails unknown passes e t) (hunknown : unknown ⊆ unknown')
    (hpasses : ∀ m, passes m → passes' m) : f.Fails unknown' passes' e t := by
  cases h with
  | fault among t => exact .fault (among.mono hunknown) t
  | request asked failed => exact .request (hpasses _ asked) failed

theorem of_faults {α : Type} {x : Eval α} {s : State} (hx : f.Faults unknown x)
    (h : x s = (.error (.failed e), t)) : f.Fails unknown passes e t := by
  rcases hx h with hstop | ⟨fault, among, hstop⟩
  · cases hstop
  · cases hstop
    exact .fault among t

theorem blame (h : f.Fails unknown passes e t) : Blame f.serve passes e.cause := by
  cases h with
  | @fault fault _ t => exact .statement fault
  | request asked failed =>
    rw [passOn_cause]
    exact .request asked failed

end Fails

mutual

/-- An expression fails because it is wrong, or because a request in it fails. -/
theorem fails_of_eval (f : Frame) : ∀ (e : Expr) {s t : State} {err : ModuleError},
    f.eval e s = (.error (.failed err), t) → f.Fails e.unknown (f.Passes e s) err t
  | .nil, _, _, _, h | .bool _, _, _, _, h | .int _, _, _, _, h | .str _, _, _, _, h => by
    cases h
  | .name name, _, _, _, h => .of_faults (Faults.lookup name) h
  | .require specifier, s, _, _, h => by
    obtain ⟨e, failed, rfl⟩ := require_eq_failed.1 h
    exact .request (.asked specifier s) failed
  | .field target name, _, _, _, h => by
    rcases Eval.bind_eq_error.1 h with h | ⟨v, u, _, h⟩
    · exact (fails_of_eval f target h).mono (List.Subset.refl _) fun _ => .target
    · rcases hfield : v.field? name with _ | found
      · rw [hfield] at h
        exact .of_faults (Faults.fail (.noFields v.typeName name) trivial) h
      · rw [hfield] at h
        cases h
  | .table fields, _, _, _, h => by
    rcases Eval.bind_eq_error.1 h with h | ⟨vs, u, _, h⟩
    · exact (fails_of_evalFields f fields h).mono (List.Subset.refl _) fun _ => .field
    · cases h
  | .call name arguments, _, _, _, h => by
    rcases Eval.bind_eq_error.1 h with h | ⟨vs, u, _, h⟩
    · exact (fails_of_evalArguments f arguments h).mono (List.subset_append_right _ _)
        fun _ => .argument
    · exact (Fails.of_faults (Faults.call name vs) h).mono (List.subset_append_left _ _)
        fun _ => id

theorem fails_of_evalFields (f : Frame) : ∀ (fields : List (String × Expr)) {s t : State}
    {err : ModuleError}, f.evalFields fields s = (.error (.failed err), t) →
    f.Fails (fieldsUnknown fields) (f.PassesAll (fields.map Prod.snd) s) err t
  | [], _, _, _, h => by cases h
  | (key, e) :: fields, _, _, _, h => by
    rcases Eval.bind_eq_error.1 h with h | ⟨v, u, hfirst, h⟩
    · exact (fails_of_eval f e h).mono (List.subset_append_left _ _) fun _ => .first
    · rcases Eval.bind_eq_error.1 h with h | ⟨vs, w, _, h⟩
      · exact (fails_of_evalFields f fields h).mono (List.subset_append_right _ _)
          fun _ => .later hfirst
      · cases h

theorem fails_of_evalArguments (f : Frame) : ∀ (arguments : List Expr) {s t : State}
    {err : ModuleError}, f.evalArguments arguments s = (.error (.failed err), t) →
    f.Fails (argumentsUnknown arguments) (f.PassesAll arguments s) err t
  | [], _, _, _, h => by cases h
  | e :: arguments, _, _, _, h => by
    rcases Eval.bind_eq_error.1 h with h | ⟨v, u, hfirst, h⟩
    · exact (fails_of_eval f e h).mono (List.subset_append_left _ _) fun _ => .first
    · rcases Eval.bind_eq_error.1 h with h | ⟨vs, w, _, h⟩
      · exact (fails_of_evalArguments f arguments h).mono (List.subset_append_right _ _)
          fun _ => .later hfirst
      · cases h

end

mutual

/-- A request that does not succeed stops the expression in which it is made. -/
theorem eval_of_stopped {f : Frame} {q : Request} {t : State} {stop : Stop} :
    ∀ {e : Expr} {s : State} {m : Moment}, f.Passes e s m → m.request = some q →
    f.serve q m.state = (.error stop, t) → f.eval e s = (.error (f.passOnStop stop), t)
  | _, _, _, .finished _ _, asked, _ => by cases asked
  | _, _, _, .asked _ _, asked, failed => by
    cases asked
    exact require_of_stopped failed
  | _, _, _, .target inner, asked, failed =>
    Eval.bind_of_error (eval_of_stopped inner asked failed) _
  | _, _, _, .field inner, asked, failed => by
    have hfields := evalArguments_of_stopped inner asked failed
    rw [evalArguments_map_snd, Eval.map_eq_error] at hfields
    exact Eval.bind_of_error hfields _
  | _, _, _, .argument inner, asked, failed =>
    Eval.bind_of_error (evalArguments_of_stopped inner asked failed) _

theorem evalArguments_of_stopped {f : Frame} {q : Request} {t : State} {stop : Stop} :
    ∀ {es : List Expr} {s : State} {m : Moment}, f.PassesAll es s m → m.request = some q →
    f.serve q m.state = (.error stop, t) →
    f.evalArguments es s = (.error (f.passOnStop stop), t)
  | _ :: _, _, _, .first inner, asked, failed =>
    Eval.bind_of_error (eval_of_stopped inner asked failed) _
  | _ :: _, _, _, .later before inner, asked, failed => by
    rw [evalArguments, Eval.bind_of_ok before]
    exact Eval.bind_of_error (evalArguments_of_stopped inner asked failed) _

end

/-- The moments of the expression of a statement. -/
def PassesStatement (f : Frame) (st : Statement) : State → Moment → Prop :=
  Passes { f with position := st.position } st.action.expr

/-- A statement fails because it is wrong, or because a request in it fails. -/
theorem fails_of_advance {st : Statement} {s t : State} {err : ModuleError}
    (h : f.advance st s = (.error (.failed err), t)) :
    Fails { f with position := st.position } st.unknown (f.PassesStatement st s) err t := by
  rcases Eval.bind_eq_error.1 h with h | ⟨v, u, _, h⟩
  · exact fails_of_eval _ _ h
  · rcases Eval.bind_eq_error.1 h with h | ⟨_, _, _, h⟩
    · exact .of_faults (Faults.perform st.action v) h
    · cases h

/-- A request that does not succeed stops the statement in which it is made. -/
theorem advance_of_stopped {st : Statement} {s u t : State} {q : Request} {stop : Stop}
    (asked : f.PassesStatement st s ⟨some q, u⟩) (stopped : f.serve q u = (.error stop, t)) :
    f.advance st s = (.error (passOnStop { f with position := st.position } stop), t) := by
  have heval := @eval_of_stopped { f with position := st.position } _ _ _ _ _ _ asked rfl stopped
  exact Eval.bind_of_error heval _

/-- Running statements comes to one of them, in a frame and a state. -/
inductive Reaches : Frame → List Statement → State → Frame → Statement → State → Prop where
  | first (f : Frame) (st : Statement) (more : List Statement) (s : State) :
      Reaches f (st :: more) s f st s
  | next {f g h : Frame} {before st : Statement} {more : List Statement} {s t u : State}
      (ran : f.advance before s = (.ok (.inr g), t)) (inner : Reaches g more t h st u) :
      Reaches f (before :: more) s h st u

/-- A script goes on in its chunk. -/
theorem Reaches.frame {f g : Frame} {statements : List Statement} {st : Statement} {s u : State}
    (h : Reaches f statements s g st u) : ∃ locals, g = { f with locals } := by
  induction h with
  | first f => exact ⟨f.locals, rfl⟩
  | next ran _ ih =>
    obtain ⟨locals, rfl⟩ := advance_frame ran
    exact ih

/-- The moments of a statement that a script comes to are moments of the script. -/
theorem Reaches.passesRun {f g : Frame} {statements : List Statement} {st : Statement}
    {s u : State} {m : Moment} (h : Reaches f statements s g st u)
    (inner : g.PassesStatement st u m) : PassesRun f statements s m := by
  induction h with
  | first => exact .evaluated inner
  | next ran _ ih => exact .next ran (ih inner)

/-- A script stops exactly if it comes to a statement that stops, and as that does. -/
theorem run_eq_error {f : Frame} {statements : List Statement} {s t : State} {stop : Stop} :
    f.run statements s = (.error stop, t) ↔
      ∃ g st u, Reaches f statements s g st u ∧ g.advance st u = (.error stop, t) := by
  constructor
  · intro h
    induction statements generalizing f s with
    | nil => cases h
    | cons statement more ih =>
      rw [run_cons] at h
      rcases Eval.bind_eq_error.1 h with h | ⟨v | g, u, ran, h⟩
      · exact ⟨f, statement, s, .first .., h⟩
      · cases h
      · obtain ⟨g', st, w, hreaches, hstop⟩ := ih h
        exact ⟨g', st, w, .next ran hreaches, hstop⟩
  · rintro ⟨g, st, u, hreaches, hstop⟩
    induction hreaches with
    | first f st more s =>
      rw [run_cons]
      exact Eval.bind_of_error hstop _
    | next ran _ ih =>
      rw [run_cons, Eval.bind_of_ok ran]
      exact ih hstop

/-- A script fails because one of its statements is wrong, or because a request in it failed. -/
theorem blame_of_run {f : Frame} {statements : List Statement} {s t : State} {err : ModuleError}
    (h : f.run statements s = (.error (.failed err), t)) :
    Blame f.serve (PassesRun f statements s) err.cause := by
  obtain ⟨g, st, u, hreaches, hfailed⟩ := run_eq_error.1 h
  have hblame := (fails_of_advance hfailed).blame.mono fun _ => hreaches.passesRun
  obtain ⟨locals, rfl⟩ := hreaches.frame
  exact hblame

end Frame

end ScriptBuild
