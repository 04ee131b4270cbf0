import ScriptBuild.Proofs.Evaluation.Congruence
import ScriptBuild.Proofs.Evaluation.Definitions
import ScriptBuild.Proofs.Evaluation.Include
import ScriptBuild.Proofs.Evaluation.Moments

/-!
# What a script does

The requests that a script makes and the exports that it executes, in the order of its run, up to
the statement that stops it. Whoever knows what the requests export knows from this what the script
does: `does_run` says to which table of exports it leads, and `PassesRun.among` that each of its
moments comes after a part of it.
-/

namespace ScriptBuild

open Script (Action Builtin Expr Statement)

/-- Something that a script does. -/
inductive Doing where
  /-- It asks for a module in this state. -/
  | asked (r : Request) (s : State)
  /-- It gives a symbol this value. -/
  | exported (name : String) (v : Value)

/-- What follows a computation if it succeeds. -/
def Eval.following {α β : Type} (x : Eval α) (f : α → State → List β) (s : State) : List β :=
  match x s with
  | (.ok a, t) => f a t
  | (.error _, _) => []

theorem Eval.following_of_ok {α β : Type} {x : Eval α} {s t : State} {a : α}
    (h : x s = (.ok a, t)) (f : α → State → List β) : x.following f s = f a t := by
  rw [following, h]

theorem Eval.following_of_error {α β : Type} {x : Eval α} {s t : State} {e : Stop}
    (h : x s = (.error e, t)) (f : α → State → List β) : x.following f s = [] := by
  rw [following, h]

theorem Eval.mem_following {α β : Type} {x : Eval α} {f : α → State → List β} {s : State} {b : β} :
    b ∈ x.following f s ↔ ∃ a t, x s = (.ok a, t) ∧ b ∈ f a t := by
  rcases hout : x s with ⟨e | a, t⟩
  · rw [following_of_error hout]
    constructor
    · intro h
      cases h
    · rintro ⟨_, _, h, _⟩
      cases h
  · rw [following_of_ok hout]
    constructor
    · exact fun h => ⟨a, t, rfl, h⟩
    · rintro ⟨_, _, h, hb⟩
      cases h
      exact hb

namespace Doing

variable {E : Request → State → List (String × Value)} {ds : List Doing}

/-- The definitions that doings come to, if a request comes to those that `E` says. -/
def definitions (E : Request → State → List (String × Value)) (ds : List Doing) :
    List (String × Value) :=
  ds.flatMap fun
    | asked r s => E r s
    | exported name v => [(name, v)]

theorem definitions_append (E : Request → State → List (String × Value)) (ds more : List Doing) :
    definitions E (ds ++ more) = definitions E ds ++ definitions E more :=
  List.flatMap_append

theorem mem_definitions {d : String × Value} :
    d ∈ definitions E ds ↔ (∃ r s, .asked r s ∈ ds ∧ d ∈ E r s) ∨ .exported d.1 d.2 ∈ ds := by
  rw [definitions, List.mem_flatMap]
  constructor
  · rintro ⟨r | ⟨name, v⟩, hin, hd⟩
    · exact .inl ⟨_, _, hin, hd⟩
    · rw [List.mem_singleton.1 hd]
      exact .inr hin
  · rintro (⟨r, s, hin, hd⟩ | hin)
    · exact ⟨_, hin, hd⟩
    · exact ⟨_, hin, List.mem_singleton_self d⟩

end Doing

namespace Frame

mutual

/-- The requests that evaluating an expression makes, up to the part of it that fails. -/
def askings (f : Frame) : Expr → State → List Doing
  | .require specifier, s => [.asked ⟨specifier, f.origin⟩ s]
  | .field target _, s => f.askings target s
  | .table fields, s => f.fieldAskings fields s
  | .call _ arguments, s => f.argumentAskings arguments s
  | .nil, _ | .bool _, _ | .int _, _ | .str _, _ | .name _, _ => []

def fieldAskings (f : Frame) : List (String × Expr) → State → List Doing
  | [], _ => []
  | (_, e) :: fields, s => f.askings e s ++ (f.eval e).following (fun _ => f.fieldAskings fields) s

def argumentAskings (f : Frame) : List Expr → State → List Doing
  | [], _ => []
  | e :: es, s => f.askings e s ++ (f.eval e).following (fun _ => f.argumentAskings es) s

end

end Frame

/-- What an action defines that was performed with a value. -/
def Script.Action.definition : Action → Value → List Doing
  | .export name _, v => [.exported name v]
  | _, _ => []

namespace Frame

/-- What one statement does. It defines a symbol only if it comes to its end. -/
def statementDoings (f : Frame) (st : Statement) (s : State) : List Doing :=
  let here := { f with position := st.position }
  here.askings st.action.expr s ++ (here.eval st.action.expr).following (fun v =>
    (here.perform st.action v).following fun _ _ => st.action.definition v) s

/-- What statements do. -/
def doings : Frame → List Statement → State → List Doing
  | _, [], _ => []
  | f, st :: more, s => f.statementDoings st s ++
      (f.advance st).following (fun
        | .inl _, _ => []
        | .inr g, t => g.doings more t) s

theorem fieldAskings_eq (f : Frame) : ∀ (fields : List (String × Expr)) (s : State),
    f.fieldAskings fields s = f.argumentAskings (fields.map Prod.snd) s
  | [], _ => rfl
  | (_, e) :: fields, s => by
    rw [fieldAskings, List.map_cons, argumentAskings, funext (fieldAskings_eq f fields)]

mutual

/-- An expression asks in its moments and exports nothing. -/
theorem passes_of_mem_askings (f : Frame) : ∀ (e : Expr) {s : State} {d : Doing},
    d ∈ f.askings e s → ∃ r t, d = .asked r t ∧ f.Passes e s ⟨some r, t⟩
  | .require specifier, s, _, h => ⟨_, _, List.mem_singleton.1 h, .asked specifier s⟩
  | .field target _, _, _, h => by
    obtain ⟨r, t, rfl, ht⟩ := passes_of_mem_askings f target h
    exact ⟨r, t, rfl, .target ht⟩
  | .table fields, _, _, h => by
    obtain ⟨r, t, rfl, ht⟩ := passesAll_of_mem_fieldAskings f fields h
    exact ⟨r, t, rfl, .field ht⟩
  | .call _ arguments, _, _, h => by
    obtain ⟨r, t, rfl, ht⟩ := passesAll_of_mem_argumentAskings f arguments h
    exact ⟨r, t, rfl, .argument ht⟩
  | .nil, _, _, h | .bool _, _, _, h | .int _, _, _, h | .str _, _, _, h | .name _, _, _, h =>
    absurd h List.not_mem_nil

theorem passesAll_of_mem_fieldAskings (f : Frame) : ∀ (fields : List (String × Expr)) {s : State}
    {d : Doing}, d ∈ f.fieldAskings fields s →
    ∃ r t, d = .asked r t ∧ f.PassesAll (fields.map Prod.snd) s ⟨some r, t⟩
  | [], _, _, h => absurd h List.not_mem_nil
  | (_, e) :: fields, _, _, h => by
    rcases List.mem_append.1 h with hfirst | hlater
    · obtain ⟨r, t, rfl, ht⟩ := passes_of_mem_askings f e hfirst
      exact ⟨r, t, rfl, .first ht⟩
    · obtain ⟨v, u, hv, hin⟩ := Eval.mem_following.1 hlater
      obtain ⟨r, t, rfl, ht⟩ := passesAll_of_mem_fieldAskings f fields hin
      exact ⟨r, t, rfl, .later hv ht⟩

theorem passesAll_of_mem_argumentAskings (f : Frame) : ∀ (es : List Expr) {s : State} {d : Doing},
    d ∈ f.argumentAskings es s → ∃ r t, d = .asked r t ∧ f.PassesAll es s ⟨some r, t⟩
  | [], _, _, h => absurd h List.not_mem_nil
  | e :: es, _, _, h => by
    rcases List.mem_append.1 h with hfirst | hlater
    · obtain ⟨r, t, rfl, ht⟩ := passes_of_mem_askings f e hfirst
      exact ⟨r, t, rfl, .first ht⟩
    · obtain ⟨v, u, hv, hin⟩ := Eval.mem_following.1 hlater
      obtain ⟨r, t, rfl, ht⟩ := passesAll_of_mem_argumentAskings f es hin
      exact ⟨r, t, rfl, .later hv ht⟩

end

/-- A statement asks in the moments of its expression, and defines a symbol if it is an `export`. -/
theorem of_mem_statementDoings {f : Frame} {st : Statement} {s : State} {d : Doing}
    (h : d ∈ f.statementDoings st s) :
    (∃ r t, d = .asked r t ∧
      Passes { f with position := st.position } st.action.expr s ⟨some r, t⟩) ∨
    ∃ name v x, d = .exported name v ∧ st.action = .export name x := by
  rcases List.mem_append.1 h with hasked | hexported
  · exact .inl (passes_of_mem_askings _ _ hasked)
  · obtain ⟨v, _, _, hperformed⟩ := Eval.mem_following.1 hexported
    obtain ⟨_, _, _, hin⟩ := Eval.mem_following.1 hperformed
    cases haction : st.action <;> rw [haction] at hin
    case «export» name x => exact .inr ⟨name, v, x, List.mem_singleton.1 hin, rfl⟩
    all_goals cases hin

/-- A script asks in its moments, and what it exports stands in one of its `export` statements. -/
theorem of_mem_doings {statements : List Statement} {f : Frame} {s : State} {d : Doing}
    (h : d ∈ f.doings statements s) :
    (∃ r t, d = .asked r t ∧ PassesRun f statements s ⟨some r, t⟩) ∨
    ∃ name v x, d = .exported name v ∧ ∃ st ∈ statements, st.action = .export name x := by
  induction statements generalizing f s with
  | nil => cases h
  | cons st more ih =>
    rcases List.mem_append.1 h with hfirst | hlater
    · rcases of_mem_statementDoings hfirst with ⟨r, t, rfl, ht⟩ | ⟨name, v, x, rfl, haction⟩
      · exact .inl ⟨r, t, rfl, .evaluated ht⟩
      · exact .inr ⟨name, v, x, rfl, st, List.mem_cons_self, haction⟩
    · obtain ⟨next, u, hu, hin⟩ := Eval.mem_following.1 hlater
      rcases next with _ | g
      · cases hin
      · rcases ih hin with ⟨r, t, rfl, ht⟩ | ⟨name, v, x, rfl, st', hst', haction⟩
        · exact .inl ⟨r, t, rfl, .next hu ht⟩
        · exact .inr ⟨name, v, x, rfl, st', List.mem_cons_of_mem _ hst', haction⟩

end Frame

section Exports

variable {E : Request → State → List (String × Value)}

/-- Whatever comes of a computation, it leaves the exports as they are. -/
abbrev Eval.KeepsExports ⦃α : Type⦄ (x : Eval α) : Prop :=
  Eval.Makes (fun s t => t.exports = s.exports) x

/-- From a state the computation makes the definitions that these doings come to, and no others. -/
def Eval.Does (E : Request → State → List (String × Value)) {α : Type} (x : Eval α) (s : State)
    (ds : List Doing) : Prop :=
  s.exports.Becomes (Doing.definitions E ds) (x s).2.exports

namespace Eval

variable {α β : Type} {x : Eval α} {s : State} {ds : List Doing}

theorem KeepsExports.bind {f : α → Eval β} (hx : x.KeepsExports) (hf : ∀ a, (f a).KeepsExports) :
    (x >>= f).KeepsExports :=
  Makes.bind (S := fun s t => t.exports = s.exports) (fun h h' => h'.trans h) hx hf

theorem KeepsExports.becomes (hx : x.KeepsExports) (s : State) :
    s.exports.Becomes [] (x s).2.exports :=
  hx s ▸ .nil s.exports

theorem KeepsExports.does (hx : x.KeepsExports) (s : State) : x.Does E s [] :=
  hx.becomes s

theorem Does.change (h : x.Does E s ds) {t : State} {outcome : Except Stop α}
    (hout : x s = (outcome, t)) : s.exports.Becomes (Doing.definitions E ds) t.exports := by
  rwa [Does, hout] at h

theorem Does.bind (hx : x.Does E s ds) {f : α → Eval β} {g : α → State → List Doing}
    (hf : ∀ a t, x s = (.ok a, t) → (f a).Does E t (g a t)) :
    (x >>= f).Does E s (ds ++ x.following g s) := by
  unfold Does
  rw [bind_apply, Doing.definitions_append]
  rcases hout : x s with ⟨e | a, t⟩
  · rw [following_of_error hout]
    exact (hx.change hout).append (.nil t.exports)
  · rw [following_of_ok hout]
    exact (hx.change hout).append (hf a t hout)

/-- What is done with the value makes no definitions. -/
theorem Does.bind_keeps (hx : x.Does E s ds) {f : α → Eval β} (hf : ∀ a, (f a).KeepsExports) :
    (x >>= f).Does E s ds := by
  unfold Does
  rw [bind_apply]
  rcases hout : x s with ⟨e | a, t⟩
  · exact hx.change hout
  · show s.exports.Becomes _ (f a t).2.exports
    rw [hf a t]
    exact hx.change hout

end Eval

namespace Frame

variable {f : Frame}

theorem keepsExports_lift {α : Type} (outcome : Except EvaluationFault α) :
    (f.lift outcome).KeepsExports := by
  cases outcome <;> exact fun _ => rfl

theorem keepsExports_importConstants (function : Builtin) (directories : List Path)
    (target : String) : (f.importConstants function directories target).KeepsExports := by
  intro s
  rcases hscan : f.scan function directories target with (e | _) | scan
  · rw [importConstants_of_error hscan]
  · rw [importConstants_of_overflow hscan]
  · rw [importConstants_of_scan hscan]

/-- The functions of the language export nothing. -/
theorem keepsExports_call (name : String) (arguments : List Value) :
    (f.call name arguments).KeepsExports := by
  have hinclude : ∀ function, (f.callInclude function arguments).KeepsExports := by
    intro function
    unfold callInclude
    split
    · refine (keepsExports_lift _).bind fun extra => Eval.KeepsExports.bind (fun _ => rfl) fun s => ?_
      exact keepsExports_importConstants _ _ _
    · exact fun _ => rfl
  have hassign : (f.callAssign arguments).KeepsExports := by
    have hmerge : (f.lift (mergeTables 1 [] arguments) >>= fun fields =>
        Eval.newInstance >>= fun number => pure (Value.table number fields)).KeepsExports :=
      (keepsExports_lift _).bind fun fields _ => rfl
    unfold callAssign
    split
    · exact Eval.KeepsExports.bind (fun _ => rfl) fun _ => hmerge
    · exact hmerge
  unfold call
  cases Builtin.ofName? name with
  | some function =>
    cases function with
    | assign => exact hassign
    | includeHeader | includeText => exact hinclude _
  | none => exact fun _ => rfl

theorem does_require {specifier : String} {s : State}
    (h : s.exports.Becomes (E ⟨specifier, f.origin⟩ s)
      (f.serve ⟨specifier, f.origin⟩ s).2.exports) :
    (f.require specifier).Does E s [.asked ⟨specifier, f.origin⟩ s] := by
  unfold Eval.Does
  rw [require_snd]
  exact h.append (.nil _)

-- A request is known to make its exports only in the states in which it is asked, so that the
-- lemmas serve an induction on the nesting of requests.
mutual

/-- An expression makes the exports of its requests. -/
theorem does_eval (f : Frame) : ∀ (e : Expr) {s : State},
    (∀ r t, .asked r t ∈ f.askings e s → t.exports.Becomes (E r t) (f.serve r t).2.exports) →
    (f.eval e).Does E s (f.askings e s)
  | .nil, s, _ | .bool _, s, _ | .int _, s, _ | .str _, s, _ => Exports.Becomes.nil s.exports
  | .name name, s, _ => by
    refine Eval.KeepsExports.does (Eval.KeepsExports.bind (fun _ => rfl) fun t => ?_) s
    split <;> exact fun _ => rfl
  | .require specifier, s, h => does_require (h _ _ (List.mem_singleton_self _))
  | .field target _, _, h =>
    (does_eval f target h).bind_keeps fun v => by split <;> exact fun _ => rfl
  | .table fields, _, h => (does_evalFields f fields h).bind_keeps fun _ _ => rfl
  | .call name arguments, _, h =>
    (does_evalArguments f arguments h).bind_keeps fun values => keepsExports_call name values

theorem does_evalFields (f : Frame) : ∀ (fields : List (String × Expr)) {s : State},
    (∀ r t, .asked r t ∈ f.fieldAskings fields s →
      t.exports.Becomes (E r t) (f.serve r t).2.exports) →
    (f.evalFields fields).Does E s (f.fieldAskings fields s)
  | [], s, _ => Exports.Becomes.nil s.exports
  | (_, e) :: fields, _, h =>
    (does_eval f e fun r t ht => h r t (List.mem_append_left _ ht)).bind fun v u hv =>
      (does_evalFields f fields fun r t ht => h r t (List.mem_append_right _
        (Eval.mem_following.2 ⟨v, u, hv, ht⟩))).bind_keeps fun _ _ => rfl

theorem does_evalArguments (f : Frame) : ∀ (es : List Expr) {s : State},
    (∀ r t, .asked r t ∈ f.argumentAskings es s →
      t.exports.Becomes (E r t) (f.serve r t).2.exports) →
    (f.evalArguments es).Does E s (f.argumentAskings es s)
  | [], s, _ => Exports.Becomes.nil s.exports
  | e :: es, _, h =>
    (does_eval f e fun r t ht => h r t (List.mem_append_left _ ht)).bind fun v u hv =>
      (does_evalArguments f es fun r t ht => h r t (List.mem_append_right _
        (Eval.mem_following.2 ⟨v, u, hv, ht⟩))).bind_keeps fun _ _ => rfl

end

/-- A statement that comes to its end exports the value of its expression, if that is what it is for,
and that value is one that can be exported. -/
theorem does_perform (f : Frame) (a : Action) (v : Value) (s : State) :
    (f.perform a v).Does E s ((f.perform a v).following (fun _ _ => a.definition v) s) := by
  cases a with
  | «export» name x =>
    have hperform : f.perform (.export name x) v = f.export name v := rfl
    rw [hperform, Frame.export]
    cases hv : Constant.ofValue? v with
    | none => exact .nil s.exports
    | some c =>
      rw [Constant.ofValue?_eq_some_iff.1 hv]
      exact .cons name c (.nil _)
  | link x =>
    cases v <;> exact .nil s.exports
  | «local» | evaluate | «return» => exact .nil s.exports

theorem does_advance (f : Frame) (st : Statement) {s : State}
    (h : ∀ r t, .asked r t ∈ f.statementDoings st s →
      t.exports.Becomes (E r t) (f.serve r t).2.exports) :
    (f.advance st).Does E s (f.statementDoings st s) := by
  have heval := does_eval { f with position := st.position } st.action.expr
    fun r t ht => h r t (List.mem_append_left _ ht)
  refine heval.bind fun v t _ => ?_
  exact (does_perform _ st.action v t).bind_keeps fun _ _ => rfl

/-- A script makes the exports that its doings come to. -/
theorem does_run (f : Frame) (statements : List Statement) {s : State}
    (h : ∀ r t, .asked r t ∈ f.doings statements s →
      t.exports.Becomes (E r t) (f.serve r t).2.exports) :
    (f.run statements).Does E s (f.doings statements s) := by
  induction statements generalizing f s with
  | nil => exact .nil s.exports
  | cons st more ih =>
    rw [run_cons]
    have hfirst := does_advance f st fun r t ht => h r t (List.mem_append_left _ ht)
    refine hfirst.bind fun next u hu => ?_
    rcases next with v | g
    · exact .nil u.exports
    · obtain ⟨locals, rfl⟩ := advance_frame hu
      exact ih _ fun r t ht =>
        h r t (List.mem_append_right _ (Eval.mem_following.2 ⟨_, u, hu, ht⟩))

end Frame

namespace Moment

/-- The definitions that the request of a moment comes to. -/
def pending (E : Request → State → List (String × Value)) (m : Moment) : List (String × Value) :=
  match m.request with
  | some r => E r m.state
  | none => []

/-- A moment while these definitions are made from a state: some of them are made, and those that its
request comes to follow next. -/
def Among (E : Request → State → List (String × Value)) (s : State)
    (defs : List (String × Value)) (m : Moment) : Prop :=
  ∃ made, made ++ m.pending E <+: defs ∧ s.exports.Becomes made m.state.exports

variable {s t : State} {defs : List (String × Value)} {m : Moment}

theorem among_start (E : Request → State → List (String × Value)) (s : State)
    (defs : List (String × Value)) : Among E s defs ⟨none, s⟩ :=
  ⟨[], List.nil_prefix, .nil s.exports⟩

theorem among_end (h : s.exports.Becomes defs t.exports) : Among E s defs ⟨none, t⟩ :=
  ⟨defs, by simp [pending], h⟩

theorem Among.mono {more : List (String × Value)} (h : m.Among E s defs) (hle : defs <+: more) :
    m.Among E s more := by
  obtain ⟨made, hmade, hstate⟩ := h
  exact ⟨made, hmade.trans hle, hstate⟩

theorem Among.after {before : List (String × Value)} (h : m.Among E t defs)
    (ht : s.exports.Becomes before t.exports) : m.Among E s (before ++ defs) := by
  obtain ⟨made, hmade, hstate⟩ := h
  refine ⟨before ++ made, ?_, ht.append hstate⟩
  rw [List.append_assoc, List.prefix_append_right_inj]
  exact hmade

end Moment

namespace Frame

mutual

theorem Passes.among {f : Frame}
    (hserve : ∀ r (t : State), t.exports.Becomes (E r t) (f.serve r t).2.exports) :
    ∀ {e : Expr} {s : State} {m : Moment}, f.Passes e s m →
      m.Among E s (Doing.definitions E (f.askings e s))
  | _, _, _, .finished e _ => Moment.among_end (does_eval f e fun r t _ => hserve r t)
  | _, _, _, .asked specifier s =>
    ⟨[], by simp [Moment.pending, askings, Doing.definitions], .nil s.exports⟩
  | _, _, _, .target inner => inner.among hserve
  | _, _, _, .field inner => by
    rw [askings, fieldAskings_eq]
    exact inner.among hserve
  | _, _, _, .argument inner => inner.among hserve

theorem PassesAll.among {f : Frame}
    (hserve : ∀ r (t : State), t.exports.Becomes (E r t) (f.serve r t).2.exports) :
    ∀ {es : List Expr} {s : State} {m : Moment}, f.PassesAll es s m →
      m.Among E s (Doing.definitions E (f.argumentAskings es s))
  | _, _, _, .first inner => by
    rw [argumentAskings, Doing.definitions_append]
    exact (inner.among hserve).mono (List.prefix_append _ _)
  | _, _, _, .later before inner => by
    rw [argumentAskings, Doing.definitions_append, Eval.following_of_ok before]
    exact (inner.among hserve).after
      ((does_eval f _ fun r t _ => hserve r t).change before)

end

/-- At each of its moments a script has done a part of what it does, up to the request that it makes
there. -/
theorem PassesRun.among {f : Frame} {statements : List Statement} {s : State} {m : Moment}
    (h : PassesRun f statements s m)
    (hserve : ∀ r (t : State), t.exports.Becomes (E r t) (f.serve r t).2.exports) :
    m.Among E s (Doing.definitions E (f.doings statements s)) := by
  induction h with
  | @evaluated f st more s m inner =>
    rw [doings, statementDoings, List.append_assoc, Doing.definitions_append]
    have hexpr := @Passes.among _ { f with position := st.position } hserve _ _ _ inner
    exact hexpr.mono (List.prefix_append _ _)
  | performed f st more s =>
    rw [doings, Doing.definitions_append]
    have hadvance : (f.advance st).Does E s (f.statementDoings st s) :=
      does_advance f st fun r t _ => hserve r t
    exact (Moment.among_end hadvance).mono (List.prefix_append _ _)
  | next before inner ih =>
    rw [doings, Doing.definitions_append, Eval.following_of_ok before]
    have hfirst := (does_advance _ _ fun r t _ => hserve r t).change before
    obtain ⟨locals, rfl⟩ := advance_frame before
    exact (ih hserve).after hfirst

end Frame

end Exports

end ScriptBuild
