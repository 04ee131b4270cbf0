import ScriptBuild.Evaluation.Chunk

/-!
# The moments of an evaluation

The states that running a script passes through: the end of each expression and each statement, and
every request in the state in which it is made. What happens while a request is served is not told
here. Main statements: `PassesRun.asks` says which requests a script can make, and `run_same` that
the moments tell them all: what a script comes to hangs on no other request.
-/

namespace ScriptBuild

open Script (Action Expr Statement)

/-- A state that an evaluation passes through, and the request made in it if one is. -/
structure Moment where
  request : Option Request
  state : State

namespace Frame

mutual

/-- The moments of evaluating an expression from a state. -/
inductive Passes (f : Frame) : Expr → State → Moment → Prop where
  | finished (e : Expr) (s : State) : Passes f e s ⟨none, (f.eval e s).2⟩
  | asked (specifier : String) (s : State) :
      Passes f (.require specifier) s ⟨some ⟨specifier, f.origin⟩, s⟩
  | target {e : Expr} {name : String} {s : State} {m : Moment} (inner : Passes f e s m) :
      Passes f (.field e name) s m
  | field {fields : List (String × Expr)} {s : State} {m : Moment}
      (inner : PassesAll f (fields.map Prod.snd) s m) : Passes f (.table fields) s m
  | argument {function : String} {arguments : List Expr} {s : State} {m : Moment}
      (inner : PassesAll f arguments s m) : Passes f (.call function arguments) s m

/-- The moments of evaluating expressions one after the other. -/
inductive PassesAll (f : Frame) : List Expr → State → Moment → Prop where
  | first {e : Expr} {es : List Expr} {s : State} {m : Moment} (inner : Passes f e s m) :
      PassesAll f (e :: es) s m
  | later {e : Expr} {es : List Expr} {s t : State} {v : Value} {m : Moment}
      (before : f.eval e s = (.ok v, t)) (inner : PassesAll f es t m) : PassesAll f (e :: es) s m

end

/-- What a statement does with the value of its expression. -/
def perform (f : Frame) : Action → Value → Eval Unit
  | .export name _, v => f.export name v
  | .link _, v => f.link v
  | _, _ => pure ()

/-- How a script goes on after a statement: it returns a value, or the rest runs in a frame. -/
def next (f : Frame) : Action → Value → Value ⊕ Frame
  | .return _, v => .inl v
  | .local name _, v => .inr { f with locals := (name, v) :: f.locals }
  | _, _ => .inr f

/-- Runs one statement. -/
def advance (f : Frame) (s : Statement) : Eval (Value ⊕ Frame) := do
  let here := { f with position := s.position }
  let v ← here.eval s.action.expr
  here.perform s.action v
  return f.next s.action v

/-- The moments of running statements from a state. -/
inductive PassesRun : Frame → List Statement → State → Moment → Prop where
  | evaluated {f : Frame} {s : Statement} {more : List Statement} {u : State} {m : Moment}
      (inner : Passes { f with position := s.position } s.action.expr u m) :
      PassesRun f (s :: more) u m
  | performed (f : Frame) (s : Statement) (more : List Statement) (u : State) :
      PassesRun f (s :: more) u ⟨none, (f.advance s u).2⟩
  | next {f g : Frame} {s : Statement} {more : List Statement} {u t : State} {m : Moment}
      (before : f.advance s u = (.ok (.inr g), t)) (inner : PassesRun g more t m) :
      PassesRun f (s :: more) u m

end Frame

namespace Frame

variable {f g : Frame}

mutual

/-- The requests of an expression are those of its text, and come from the file of the frame. -/
theorem Passes.asks : ∀ {e : Expr} {s : State} {m : Moment}, f.Passes e s m →
    ∀ r, m.request = some r → r.specifier ∈ e.requests ∧ r.origin = f.origin
  | _, _, _, .finished _ _, _, h => by cases h
  | _, _, _, .asked specifier _, _, h => by
    cases h
    exact ⟨List.mem_singleton_self _, rfl⟩
  | _, _, _, .target inner, r, h => inner.asks r h
  | .table fields, _, _, .field inner, r, h => by
    obtain ⟨e, he, hr, horigin⟩ := inner.asks r h
    obtain ⟨x, hx, rfl⟩ := List.mem_map.1 he
    exact ⟨Script.mem_fieldRequests.2 ⟨x, hx, hr⟩, horigin⟩
  | .call _ arguments, _, _, .argument inner, r, h => by
    obtain ⟨e, he, hr, horigin⟩ := inner.asks r h
    exact ⟨Script.mem_argumentRequests.2 ⟨e, he, hr⟩, horigin⟩

theorem PassesAll.asks : ∀ {es : List Expr} {s : State} {m : Moment}, f.PassesAll es s m →
    ∀ r, m.request = some r → ∃ e ∈ es, r.specifier ∈ e.requests ∧ r.origin = f.origin
  | _, _, _, .first inner, r, h => ⟨_, List.mem_cons_self, inner.asks r h⟩
  | _, _, _, .later _ inner, r, h => by
    obtain ⟨e, he, hr⟩ := inner.asks r h
    exact ⟨e, List.mem_cons_of_mem _ he, hr⟩

end

/-- The values of fields are those of their expressions. -/
theorem evalArguments_map_snd (f : Frame) : ∀ fields : List (String × Expr),
    f.evalArguments (fields.map Prod.snd) = List.map Prod.snd <$> f.evalFields fields
  | [] => by simp [evalArguments, evalFields]
  | (_, e) :: fields => by simp [evalArguments, evalFields, evalArguments_map_snd f fields]

/-- Statements are run one after the other. -/
theorem run_cons (f : Frame) (s : Statement) (more : List Statement) :
    f.run (s :: more) = f.advance s >>= fun
      | .inl v => pure v
      | .inr g => g.run more := by
  rw [Frame.run]
  unfold advance
  cases s.action <;> simp only [bind_assoc, pure_bind, perform, next]

/-- A script goes on in the same chunk. -/
theorem advance_frame {s : Statement} {u t : State}
    (h : f.advance s u = (.ok (.inr g), t)) : ∃ locals, g = { f with locals } := by
  obtain ⟨v, w, _, h⟩ := Eval.bind_eq_ok.1 h
  obtain ⟨_, _, _, h⟩ := Eval.bind_eq_ok.1 h
  have hnext : f.next s.action v = .inr g := Except.ok.inj (congrArg Prod.fst h)
  cases haction : s.action <;> rw [haction] at hnext <;> cases hnext <;> exact ⟨_, rfl⟩

/-- Only a `return` ends a script with a value. -/
theorem isReturn_of_advance {s : Statement} {u t : State} {v : Value}
    (h : f.advance s u = (.ok (.inl v), t)) : s.action.isReturn = true := by
  obtain ⟨w, w', _, h⟩ := Eval.bind_eq_ok.1 h
  obtain ⟨_, _, _, h⟩ := Eval.bind_eq_ok.1 h
  have hnext : f.next s.action w = .inl v := Except.ok.inj (congrArg Prod.fst h)
  cases haction : s.action <;> rw [haction] at hnext <;> cases hnext
  rfl

/-- The requests of a script are those of its text, and come from its file. -/
theorem PassesRun.asks {statements : List Statement} {s : State} {m : Moment}
    (h : PassesRun f statements s m) : ∀ r, m.request = some r →
    r.specifier ∈ statements.flatMap (·.requests) ∧ r.origin = f.origin := by
  induction h with
  | @evaluated _ statement more _ _ inner =>
    intro r hr
    obtain ⟨hspecifier, horigin⟩ := inner.asks r hr
    exact ⟨List.mem_flatMap.2 ⟨statement, List.mem_cons_self, hspecifier⟩, horigin⟩
  | performed => exact fun r hr => by cases hr
  | next before _ ih =>
    intro r hr
    obtain ⟨locals, rfl⟩ := advance_frame before
    obtain ⟨hspecifier, horigin⟩ := ih r hr
    rw [List.flatMap_cons]
    exact ⟨List.mem_append_right _ hspecifier, horigin⟩

mutual

/-- An expression asks for nothing but what it asks for in its moments. -/
theorem eval_same (f : Frame) (serve : Request → Eval Value) : ∀ (e : Expr) {s : State},
    (∀ r t, f.Passes e s ⟨some r, t⟩ → serve r t = f.serve r t) →
    Frame.eval { f with serve } e s = f.eval e s
  | .nil, _, _ | .bool _, _, _ | .int _, _, _ | .str _, _, _ | .name _, _, _ => rfl
  | .require specifier, s, h => by
    have hserve := h _ _ (.asked specifier s)
    show Frame.require _ specifier s = Frame.require _ specifier s
    unfold Frame.require
    split
    · unfold Eval.mapError
      dsimp only
      rw [hserve]
      rfl
    · exact hserve
  | .field target _, _, h =>
    Eval.bind_same (eval_same f serve target fun r t ht => h r t (.target ht)) fun _ _ _ => rfl
  | .table fields, _, h =>
    Eval.bind_same (evalFields_same f serve fields fun r t ht => h r t (.field ht)) fun _ _ _ => rfl
  | .call _ arguments, _, h =>
    Eval.bind_same (evalArguments_same f serve arguments fun r t ht => h r t (.argument ht))
      fun _ _ _ => rfl

theorem evalFields_same (f : Frame) (serve : Request → Eval Value) :
    ∀ (fields : List (String × Expr)) {s : State},
    (∀ r t, f.PassesAll (fields.map Prod.snd) s ⟨some r, t⟩ → serve r t = f.serve r t) →
    Frame.evalFields { f with serve } fields s = f.evalFields fields s
  | [], _, _ => rfl
  | (_, e) :: fields, _, h =>
    Eval.bind_same (eval_same f serve e fun r t ht => h r t (.first ht)) fun _ _ hfirst =>
      Eval.bind_same (evalFields_same f serve fields fun r t ht => h r t (.later hfirst ht))
        fun _ _ _ => rfl

theorem evalArguments_same (f : Frame) (serve : Request → Eval Value) :
    ∀ (arguments : List Expr) {s : State},
    (∀ r t, f.PassesAll arguments s ⟨some r, t⟩ → serve r t = f.serve r t) →
    Frame.evalArguments { f with serve } arguments s = f.evalArguments arguments s
  | [], _, _ => rfl
  | e :: arguments, _, h =>
    Eval.bind_same (eval_same f serve e fun r t ht => h r t (.first ht)) fun _ _ hfirst =>
      Eval.bind_same (evalArguments_same f serve arguments fun r t ht => h r t (.later hfirst ht))
        fun _ _ _ => rfl

end

theorem next_serve (f : Frame) (serve : Request → Eval Value) (a : Action) (v : Value) :
    Frame.next { f with serve } a v = (f.next a v).map id fun g => { g with serve } := by
  cases a <;> rfl

/-- A script asks for nothing but what it asks for in its moments. -/
theorem run_same (f : Frame) (serve : Request → Eval Value) (statements : List Statement)
    {s : State} (h : ∀ r t, PassesRun f statements s ⟨some r, t⟩ → serve r t = f.serve r t) :
    Frame.run { f with serve } statements s = f.run statements s := by
  induction statements generalizing f s with
  | nil => rfl
  | cons statement more ih =>
    rw [run_cons, run_cons]
    unfold advance
    simp only [bind_assoc, pure_bind]
    have heval := eval_same { f with position := statement.position } serve statement.action.expr
      fun r t ht => h r t (.evaluated ht)
    refine Eval.bind_same heval fun v t hv => Eval.bind_same rfl fun u w hw => ?_
    rw [next_serve]
    rcases hnext : f.next statement.action v with result | g
    · rfl
    · have hadvance : f.advance statement s = (.ok (.inr g), w) := by
        unfold advance
        rw [Eval.bind_of_ok hv, Eval.bind_of_ok hw, hnext]
        rfl
      obtain ⟨locals, rfl⟩ := advance_frame hadvance
      exact ih _ fun r t ht => h r t (.next hadvance ht)

end Frame

end ScriptBuild
