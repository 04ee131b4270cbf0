import ScriptBuild.Exports
import ScriptBuild.Import.Cache
import ScriptBuild.Import.Error
import ScriptBuild.Import.Request

/-!
# The state of an evaluation

What scripts share while they run: the module cache, the files recorded as dependencies, the keys of
the modules being loaded, the exports and the flags. An evaluation that stops keeps all it did until
then, so a state comes out of it together with the value or with the reason for stopping. The
history says what was read and loaded, in order.
-/

namespace ScriptBuild

/-- Something that an evaluation did. -/
inductive Event where
  /-- The text of the script file with this canonical path was read. -/
  | read (file : Path)
  /-- An import of constants read these header files. -/
  | headers (files : List Path)
  /-- The search directories led to a file, which is about to be read. -/
  | entered (step : ImportStep)
  /-- The script of a file that was entered ran to its end. -/
  | left (step : ImportStep)
  /-- A module was put into the cache. -/
  | registered (key : String) (specifier : String) (source : ModuleSource)
  deriving DecidableEq, Repr

/-- What scripts share while they run. -/
structure State where
  cache : Cache Value
  dependencies : List Path
  /-- The keys of the modules being loaded, the innermost last. -/
  loading : List String
  exports : Exports
  cFlags : List String
  linkFlags : List String
  /-- The number of the next list or table. -/
  nextInstance : Nat
  history : List Event
  deriving Repr

namespace State

/-- Nothing was done yet. -/
def empty : State := ⟨[], [], [], [], [], [], 0, []⟩

/-- The state after a file was recorded as a dependency. Files recorded twice are listed twice. -/
def record (s : State) (file : Path) : State :=
  { s with dependencies := s.dependencies ++ [file] }

/-- The state after something was done. -/
def log (s : State) (e : Event) : State :=
  { s with history := s.history ++ [e] }

/-- The state after flags were added. -/
def inject (s : State) (cFlags linkFlags : List String) : State :=
  { s with cFlags := s.cFlags ++ cFlags, linkFlags := s.linkFlags ++ linkFlags }

end State

/-- Why an evaluation stopped. -/
inductive Stop where
  /-- A module failed. -/
  | failed (error : ModuleError)
  /-- The program stopped because an integer of a header was no word. Nothing runs after that. -/
  | overflow
  /-- The requests were nested deeper than allowed. -/
  | tooDeep
  deriving DecidableEq, Repr

/-- Nothing runs after this. -/
def Stop.Final : Stop → Prop
  | .failed _ => False
  | .overflow | .tooDeep => True

/-- A computation on the shared state, which also an evaluation that stops leaves changed. -/
abbrev Eval := ExceptT Stop (StateM State)

namespace Eval

variable {α : Type}

/-- Stops with an error of a module. -/
def fail (e : ModuleError) : Eval α :=
  throw (.failed e)

/-- The number for a new list or table. -/
def newInstance : Eval Nat :=
  modifyGet fun s => (s.nextInstance, { s with nextInstance := s.nextInstance + 1 })

/-- Changes the error with which a computation fails. -/
def mapError (f : ModuleError → ModuleError) (x : Eval α) : Eval α := fun s =>
  match x s with
  | (.error (.failed e), s') => (.error (.failed (f e)), s')
  | r => r

/-- Computes while a key is on the stack of the modules being loaded. However the computation ends,
the key is taken off again. -/
def loading (key : String) (x : Eval α) : Eval α := fun s =>
  let r := x { s with loading := s.loading ++ [key] }
  (r.1, { r.2 with loading := r.2.loading.dropLast })

@[simp] theorem pure_apply (a : α) (s : State) : (pure a : Eval α) s = (.ok a, s) := rfl

@[simp] theorem fail_apply (e : ModuleError) (s : State) :
    (fail e : Eval α) s = (.error (.failed e), s) := rfl

@[simp] theorem get_apply (s : State) : (get : Eval State) s = (.ok s, s) := rfl

@[simp] theorem modify_apply (f : State → State) (s : State) :
    (modify f : Eval PUnit) s = (.ok ⟨⟩, f s) := rfl

theorem bind_apply {β : Type} (x : Eval α) (f : α → Eval β) (s : State) :
    (x >>= f) s = match x s with
      | (.ok a, t) => f a t
      | (.error e, t) => (.error e, t) := by
  show (match x s with | (r, t) => ExceptT.bindCont f r t) = _
  rcases x s with ⟨_ | _, _⟩ <;> rfl

theorem bind_of_ok {β : Type} {x : Eval α} {s t : State} {a : α} (h : x s = (.ok a, t))
    (f : α → Eval β) : (x >>= f) s = f a t := by
  rw [bind_apply, h]

theorem bind_of_error {β : Type} {x : Eval α} {s t : State} {e : Stop} (h : x s = (.error e, t))
    (f : α → Eval β) : (x >>= f) s = (.error e, t) := by
  rw [bind_apply, h]

theorem map_apply {β : Type} (f : α → β) (x : Eval α) (s : State) :
    (f <$> x) s = match x s with
      | (.ok a, t) => (.ok (f a), t)
      | (.error e, t) => (.error e, t) := by
  rw [← bind_pure_comp, bind_apply]
  rfl

theorem bind_eq_ok {β : Type} {x : Eval α} {f : α → Eval β} {s t : State} {b : β} :
    (x >>= f) s = (.ok b, t) ↔ ∃ a u, x s = (.ok a, u) ∧ f a u = (.ok b, t) := by
  rw [bind_apply]
  constructor
  · intro h
    rcases hx : x s with ⟨e | a, u⟩
    · rw [hx] at h
      cases h
    · rw [hx] at h
      exact ⟨a, u, rfl, h⟩
  · rintro ⟨a, u, hx, h⟩
    rw [hx]
    exact h

theorem bind_same {β : Type} {x x' : Eval α} {g g' : α → Eval β} {s : State}
    (hx : x' s = x s) (hg : ∀ a t, x s = (.ok a, t) → g' a t = g a t) :
    (x' >>= g') s = (x >>= g) s := by
  rw [bind_apply, bind_apply, hx]
  rcases hout : x s with ⟨e | a, t⟩
  · rfl
  · exact hg a t hout

theorem bind_eq_error {β : Type} {x : Eval α} {f : α → Eval β} {s t : State} {e : Stop} :
    (x >>= f) s = (.error e, t) ↔
      x s = (.error e, t) ∨ ∃ a u, x s = (.ok a, u) ∧ f a u = (.error e, t) := by
  rw [bind_apply]
  constructor
  · intro h
    rcases hx : x s with ⟨e' | a, u⟩
    · rw [hx] at h
      cases h
      exact .inl rfl
    · rw [hx] at h
      exact .inr ⟨a, u, rfl, h⟩
  · rintro (h | ⟨a, u, hx, h⟩)
    · rw [h]
    · rw [hx]
      exact h

theorem mapError_eq_failed {x : Eval α} {g : ModuleError → ModuleError}
    {s t : State} {e : ModuleError} :
    x.mapError g s = (.error (.failed e), t) ↔
      ∃ inner, x s = (.error (.failed inner), t) ∧ g inner = e := by
  unfold mapError
  constructor
  · intro h
    rcases hx : x s with ⟨(inner | _ | _) | v, u⟩
    · rw [hx] at h
      cases h
      exact ⟨inner, rfl, rfl⟩
    · rw [hx] at h
      cases h
    · rw [hx] at h
      cases h
    · rw [hx] at h
      cases h
  · rintro ⟨inner, hx, rfl⟩
    rw [hx]

theorem mapError_eq_ok {x : Eval α} {g : ModuleError → ModuleError} {s t : State} {a : α} :
    x.mapError g s = (.ok a, t) ↔ x s = (.ok a, t) := by
  unfold mapError
  rcases x s with ⟨(_ | _ | _) | _, _⟩
  · constructor <;> intro h <;> cases h
  · exact Iff.rfl
  · exact Iff.rfl
  · exact Iff.rfl

/-- No error of a module is made where the program stops for good. -/
theorem mapError_of_final {x : Eval α} {s t : State} {stop : Stop} (h : x s = (.error stop, t))
    (final : stop.Final) (g : ModuleError → ModuleError) : x.mapError g s = (.error stop, t) := by
  unfold mapError
  rw [h]
  cases stop with
  | failed e => exact final.elim
  | overflow | tooDeep => rfl

theorem mapError_eq_of_final {x : Eval α} {g : ModuleError → ModuleError} {s t : State}
    {stop : Stop} (final : stop.Final) :
    x.mapError g s = (.error stop, t) ↔ x s = (.error stop, t) := by
  refine ⟨fun h => ?_, fun h => mapError_of_final h final g⟩
  unfold mapError at h
  rcases hout : x s with ⟨(e | _ | _) | a, u⟩
  · rw [hout] at h
    cases h
    exact final.elim
  · rw [hout] at h
    exact h
  · rw [hout] at h
    exact h
  · rw [hout] at h
    cases h

theorem map_eq_ok {β : Type} {f : α → β} {x : Eval α} {s t : State} {b : β} :
    (f <$> x) s = (.ok b, t) ↔ ∃ a, x s = (.ok a, t) ∧ f a = b := by
  rw [map_apply]
  rcases x s with ⟨e | a, u⟩
  · constructor
    · intro h
      cases h
    · rintro ⟨a, h, _⟩
      cases h
  · constructor
    · intro h
      cases h
      exact ⟨a, rfl, rfl⟩
    · rintro ⟨_, h, rfl⟩
      cases h
      rfl

theorem map_eq_error {β : Type} {f : α → β} {x : Eval α} {s t : State} {e : Stop} :
    (f <$> x) s = (.error e, t) ↔ x s = (.error e, t) := by
  rw [map_apply]
  rcases x s with ⟨_ | _, _⟩ <;> constructor <;> intro h <;> cases h <;> rfl

end Eval

end ScriptBuild
