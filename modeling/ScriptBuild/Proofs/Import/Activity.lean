import ScriptBuild.Proofs.Import.Strategy

/-!
# How errors come out

A request runs a file, a file a script, a script its statements, and a statement makes requests. An
error is made by one of these and then leaves all that goes on around it; on its way it is given a
location and a chain of imports, and nothing else changes. Main statements: `Inside.fails` says what
becomes of an error on the whole way out, `exists_raises` that every error was made somewhere
inside, and `Inside.stacked` what is being loaded there.
-/

namespace ScriptBuild

open Script (Chunk Statement)

/-- Something that goes on while scripts run. -/
inductive Activity where
  /-- A request is served. -/
  | request (r : Request)
  /-- A file is read, and its script runs. -/
  | file (p : Path)
  | script (c : Chunk)
  /-- A statement of a script runs, with these local names. -/
  | statement (c : Chunk) (locals : List (String × Value)) (st : Statement)

namespace Activity

/-- The statement that is running, with its script. -/
def statement? : Activity → Option (Chunk × Statement)
  | statement c _ st => some (c, st)
  | _ => none

/-- The file that goes with it. -/
def origin? : Activity → Option Path
  | request r => r.origin
  | file p => some p
  | script c | statement c _ _ => c.origin

/-- The innermost statement that is running: it, or else the one around it. -/
def innermost (a : Activity) (around : Option (Chunk × Statement)) : Option (Chunk × Statement) :=
  a.statement?.or around

/-- Where a statement stands, if its script has a file. -/
def place? (running : Option (Chunk × Statement)) : Option SourceLocation :=
  running.bind fun x => x.1.origin.map fun file => ⟨file, x.2.position⟩

end Activity

/-- The error after it went out: it has that location, unless it had one, and a longer chain. -/
def ModuleError.carried (e : ModuleError) (place : Option SourceLocation)
    (steps : List ImportStep) : ModuleError :=
  { e with location := e.location.or place, chain := e.chain ++ steps }

theorem ModuleError.carried_none (e : ModuleError) : e.carried none [] = e := by
  simp [carried]

theorem ModuleError.carried_carried (e : ModuleError) (place place' : Option SourceLocation)
    (steps steps' : List ImportStep) :
    (e.carried place steps).carried place' steps' =
      e.carried (place.or place') (steps ++ steps') := by
  simp [carried, Option.or_assoc]

namespace Setting

variable {setting : Setting} {a b c : Activity} {s t u v : State} {e : ModuleError}
  {loads opened : List Request} {running : Option (Chunk × Statement)}

/-- The frame in which a script runs. -/
def frame (setting : Setting) (c : Chunk) (locals : List (String × Value)) : Frame :=
  ⟨setting, setting.requireModule, c.origin, locals, .start⟩

/-- It ends in an error, and in a state. -/
def Fails (setting : Setting) : Activity → State → ModuleError → State → Prop
  | .request r, s, e, t => setting.requireModule r s = (.error (.failed e), t)
  | .file p, s, e, t => (setting.load p >>= setting.runChunk) s = (.error (.failed e), t)
  | .script c, s, e, t => setting.runChunk c s = (.error (.failed e), t)
  | .statement c locals st, s, e, t =>
    (setting.frame c locals).advance st s = (.error (.failed e), t)

/-- One thing leads to another one, which goes on inside of it. A request that opens a file is
listed with the step. -/
inductive Step (setting : Setting) :
    Activity → State → List Request → Activity → State → Prop where
  /-- The search directories lead to a file. -/
  | resolved {q : Request} {s : State} {p : Path} (fresh : s.cache.get? q.key = none)
      (free : q.key ∉ s.loading) (found : setting.resolved? q = some p) :
      Step setting (.request q) s [q] (.file p) ((s.push q.key).log (.entered ⟨p, q.specifier⟩))
  /-- The templates lead to a file. -/
  | hosted {q : Request} {s : State} {p : Path} (fresh : s.cache.get? q.key = none)
      (free : q.key ∉ s.loading) (missing : setting.resolved? q = none)
      (foreign : builtinModule? q.specifier = none)
      (searched : setting.searchPath q.specifier = some p) :
      Step setting (.request q) s [q] (.file p) (s.push q.key)
  | loaded {p : Path} {c : Chunk} {s t : State} (text : setting.load p s = (.ok c, t)) :
      Step setting (.file p) s [] (.script c) t
  | reached {c : Chunk} {locals : List (String × Value)} {st : Statement} {s u : State}
      (way : (setting.frame c []).Reaches c.statements s (setting.frame c locals) st u) :
      Step setting (.script c) s [] (.statement c locals st) u
  | asked {c : Chunk} {locals : List (String × Value)} {st : Statement} {q : Request}
      {s u : State} (passed : (setting.frame c locals).PassesStatement st s ⟨some q, u⟩) :
      Step setting (.statement c locals st) s [] (.request q) u

/-- What goes on inside of something, with the requests whose files are open around it, the
innermost last, and the innermost statement that is running around it. -/
inductive Inside (setting : Setting) (a : Activity) (s : State) :
    List Request → Option (Chunk × Statement) → Activity → State → Prop where
  | start : Inside setting a s [] none a s
  | step {loads opened : List Request} {running : Option (Chunk × Statement)} {b c : Activity}
      {u v : State} (outer : Inside setting a s loads running b u)
      (next : setting.Step b u opened c v) :
      Inside setting a s (loads ++ opened) (b.innermost running) c v

/-- An error is made here. -/
inductive Raises (setting : Setting) : Activity → State → ModuleError → State → Prop where
  /-- The key of the request is being loaded. -/
  | cycle {q : Request} {s : State} (fresh : s.cache.get? q.key = none)
      (busy : q.key ∈ s.loading) :
      Raises setting (.request q) s (.cycle (s.loading ++ [q.key])) s
  | nowhere {q : Request} {s : State} (fresh : s.cache.get? q.key = none)
      (free : q.key ∉ s.loading) (nowhere : setting.Nowhere q) :
      Raises setting (.request q) s (setting.notFound q) s
  | unread {p : Path} {s : State} {cause : OsError}
      (text : setting.disk.readFile p = .error cause) :
      Raises setting (.file p) s (.io p cause.message) s
  | unparsed {p : Path} {s : State} {loc : Location} {source : String}
      {error : Script.SyntaxError} (text : setting.disk.readFile p = .ok (loc, source))
      (chunk : Chunk.ofText source (some p) = .error error) :
      Raises setting (.file p) s (.parse error.fault.message ⟨p, error.position⟩)
        (s.log (.read loc.toPath))
  /-- The statement is wrong; the requests that it made were answered. -/
  | wrong {c : Chunk} {locals : List (String × Value)} {st : Statement} {s t : State}
      (fault : EvaluationFault) (among : fault.Among st.unknown)
      (stops : (setting.frame c locals).advance st s = (.error (.failed (.evaluation fault.message
        (some ⟨c.origin.getD ⟨"<string>"⟩, st.position⟩))), t))
      (answered : ∀ q u, (setting.frame c locals).PassesStatement st s ⟨some q, u⟩ →
        ∃ v w, setting.requireModule q u = (.ok v, w)) :
      Raises setting (.statement c locals st) s (.evaluation fault.message
        (some ⟨c.origin.getD ⟨"<string>"⟩, st.position⟩)) t

/-- The entry in the chain of imports of a request whose file is open: the file that the search
directories led to. A file that the templates led to has none. -/
def chainStep? (setting : Setting) (q : Request) : Option ImportStep :=
  (setting.resolved? q).map fun file => ⟨file, q.specifier⟩

theorem fails_file {p : Path} :
    setting.Fails (.file p) s e t ↔
      setting.runFile setting.requireModule p s = (.error (.failed e), t) := by
  unfold Fails runFile
  simp only [← runChunk_eq]

/-- It ends in one error, if it does. -/
theorem Fails.unique {e' : ModuleError} {t' : State} (h : setting.Fails a s e t)
    (h' : setting.Fails a s e' t') : e = e' ∧ t = t' := by
  cases a with
  | request | file | script | statement =>
    obtain ⟨herror, hstate⟩ := Prod.mk.inj (h.symm.trans h')
    exact ⟨Stop.failed.inj (Except.error.inj herror), hstate⟩

/-- A script that comes to a statement has changed the state only as running scripts does. -/
theorem evolves_of_reaches {f g : Frame} {statements : List Statement} {st : Statement}
    (h : f.Reaches statements s g st u) (hf : f.setting = setting)
    (hserve : ∀ r, setting.Evolving (f.serve r)) : setting.Evolves s u := by
  induction h with
  | first => exact .refl _
  | next ran _ ih =>
    have hfirst := (Evolving.advance hf hserve _).evolves ran
    obtain ⟨locals, rfl⟩ := Frame.advance_frame ran
    exact hfirst.trans (ih hf hserve)

/-- What failed changed the state only as running scripts does. -/
theorem Fails.evolves (h : setting.Fails a s e t) : setting.Evolves s t := by
  cases a with
  | request r => exact Evolving.evolves (setting.evolves_requireModule r) h
  | file p => exact ((Evolving.load p).bind setting.evolves_runChunk).evolves h
  | script c => exact Evolving.evolves (setting.evolves_runChunk c) h
  | statement c locals st =>
    have hadvance : setting.Evolving ((setting.frame c locals).advance st) :=
      @Evolving.advance setting (setting.frame c locals) rfl setting.evolves_requireModule st
    exact hadvance.evolves h

/-- A key that was free is taken by a request that opens a file; otherwise the state changes only as
running scripts does. -/
theorem Step.evolves (h : setting.Step a s opened b u) :
    (opened = [] ∧ setting.Evolves s u) ∨
      ∃ q, opened = [q] ∧ s.cache.get? q.key = none ∧ q.key ∉ s.loading ∧
        setting.Evolves (s.push q.key) u := by
  cases h with
  | resolved fresh free found => exact .inr ⟨_, rfl, fresh, free, .entered _ found⟩
  | hosted fresh free => exact .inr ⟨_, rfl, fresh, free, .refl _⟩
  | loaded text => exact .inl ⟨rfl, (Evolving.load _).evolves text⟩
  | reached way => exact .inl ⟨rfl, evolves_of_reaches way rfl setting.evolves_requireModule⟩
  | asked passed => exact .inl ⟨rfl, evolves_of_passes rfl setting.evolves_requireModule passed⟩

/-- The stack inside of a step. -/
theorem Step.loading_eq (h : setting.Step a s opened b u) :
    u.loading = s.loading ++ opened.map Request.key := by
  rcases h.evolves with ⟨rfl, hbody⟩ | ⟨q, rfl, _, _, hbody⟩
  · rw [hbody.loading_eq, List.map_nil, List.append_nil]
  · exact hbody.loading_eq

/-- What happens inside of a step leaves the stack around it. -/
theorem Step.restores (h : setting.Step a s opened b u) (hb : setting.Fails b u e t) :
    t.loading = s.loading ++ opened.map Request.key :=
  hb.evolves.loading_eq.trans h.loading_eq

theorem eq_with_loading {keys : List String} (h : t.loading = keys) :
    t = { t with loading := keys } := by
  rw [← h]

theorem pop_eq_with_loading {keys : List String} {key : String}
    (h : t.loading = keys ++ [key]) : t.pop = { t with loading := keys } := by
  rw [State.pop, h, List.dropLast_concat]

/-- An error goes out of a statement with its place, and out of a request whose file the search
directories led to with an entry in the chain of imports. Nothing is done on the way. -/
theorem Step.fails (h : setting.Step a s opened b u) (hb : setting.Fails b u e t) :
    setting.Fails a s (e.carried (Activity.place? a.statement?)
      (opened.filterMap setting.chainStep?).reverse) { t with loading := s.loading } := by
  -- Only a request has put a key on the stack, and the load takes it off again.
  have hloading := h.restores hb
  cases h with
  | @resolved q s p fresh free found =>
    have hsteps : ([q].filterMap setting.chainStep?).reverse = [⟨p, q.specifier⟩] := by
      simp [chainStep?, found]
    have houtcome := (answeredByFile fresh free found).failed e t (fails_file.1 hb)
    rw [pop_eq_with_loading hloading] at houtcome
    show setting.requireModule q s = (.error (.failed (e.carried none _)), _)
    rw [hsteps, houtcome]
    simp [ModuleError.carried]
  | @hosted q s p fresh free missing foreign searched =>
    have hsteps : ([q].filterMap setting.chainStep?).reverse = [] := by
      simp [chainStep?, missing]
    have hown := answeredByOwn fresh free missing (ownModule_of_template foreign searched)
    have houtcome := hown.failed e t (fails_file.1 hb)
    rw [pop_eq_with_loading hloading] at houtcome
    show setting.requireModule q s = (.error (.failed (e.carried none _)), _)
    rw [hsteps, houtcome, ModuleError.carried_none]
  | loaded text =>
    rw [← eq_with_loading (hloading.trans (List.append_nil _))]
    show setting.Fails _ _ (e.carried none []) _
    rw [ModuleError.carried_none]
    exact (Eval.bind_of_ok text _).trans hb
  | @reached c locals st s u way =>
    rw [← eq_with_loading (hloading.trans (List.append_nil _))]
    show setting.runChunk c s = (.error (.failed (e.carried none [])), t)
    rw [ModuleError.carried_none, runChunk_eq]
    exact Frame.run_eq_error.2 ⟨_, _, _, way, hb⟩
  | @asked c locals st q s u passed =>
    rw [← eq_with_loading (hloading.trans (List.append_nil _))]
    show (setting.frame c locals).advance st s =
      (.error (.failed (e.carried (Activity.place? (some (c, st))) [])), t)
    rw [Frame.advance_of_stopped passed hb]
    unfold Frame.passOnStop Frame.passOn ModuleError.carried Activity.place?
    cases horigin : c.origin <;> simp [frame, horigin, ModuleError.locatedAt, Frame.location]

/-- What goes on inside of something that has a file has one too. -/
theorem Step.origin (h : setting.Step a s opened b u) (hb : b.origin? = none) :
    a.origin? = none := by
  cases h with
  | resolved | hosted => cases hb
  | loaded text =>
    obtain ⟨_, _, _, hchunk, _⟩ := load_eq_ok.1 text
    cases (Chunk.ofText_of_ofText hchunk none).1.symm.trans hb
  | reached => exact hb
  | asked passed => exact (Frame.Passes.asks passed _ rfl).2.symm.trans hb

/-- A statement that runs around something without a file has no file itself. -/
theorem Inside.place_eq_none (h : setting.Inside a s loads running b u) (hb : b.origin? = none) :
    Activity.place? running = none := by
  induction h with
  | start => rfl
  | @step loads opened running b c u v outer next ih =>
    -- Inside of what has a file everything has one, so what is around has none either.
    have hb' := next.origin hb
    cases b with
    | statement d locals st =>
      show d.origin.map _ = none
      rw [show d.origin = none from hb']
      rfl
    | request | file | script => exact ih hb'

theorem Inside.place_or (h : setting.Inside a s loads running b u) :
    (Activity.place? b.statement?).or (Activity.place? running) =
      Activity.place? (b.innermost running) := by
  cases b with
  | statement d locals st =>
    cases horigin : d.origin with
    | none =>
      rw [h.place_eq_none horigin, Option.or_none]
      rfl
    | some file =>
      have hplace : Activity.place? (some (d, st)) = some ⟨file, st.position⟩ := by
        simp [Activity.place?, horigin]
      show (Activity.place? (some (d, st))).or _ = Activity.place? (some (d, st))
      rw [hplace, Option.some_or]
  | request | file | script => rfl

/-- What becomes of an error on the way out: if it has no location, it gets that of the innermost
statement that is running where it was made, and its chain is continued by the files that the search
directories led to and that are open there. Nothing is done on the way. -/
theorem Inside.fails (h : setting.Inside a s loads running b u) (hb : setting.Fails b u e t) :
    setting.Fails a s
      (e.carried (Activity.place? running) (loads.filterMap setting.chainStep?).reverse)
      { t with loading := s.loading } := by
  induction h generalizing e t with
  | start =>
    show setting.Fails a s (e.carried none []) _
    rw [ModuleError.carried_none, ← eq_with_loading hb.evolves.loading_eq]
    exact hb
  | step outer next ih =>
    have houter := ih (next.fails hb)
    rw [ModuleError.carried_carried, outer.place_or, ← List.reverse_append,
      ← List.filterMap_append] at houter
    exact houter

theorem Raises.fails (h : setting.Raises a s e t) : setting.Fails a s e t := by
  cases h with
  | cycle fresh busy =>
    show setting.requireModule _ _ = _
    rw [requireModule_eq]
    exact (Serves.cycle fresh busy).eq
  | nowhere fresh free nowhere => exact requireModule_of_nowhere fresh free nowhere
  | unread text => exact Eval.bind_of_error (load_of_error text) _
  | @unparsed p s loc source error text chunk =>
    have hload := load_of_text (s := s) text
    rw [chunk] at hload
    exact Eval.bind_of_error hload _
  | wrong _ _ stops => exact stops

/-- An error has no chain when it is made. -/
theorem Raises.chain_eq (h : setting.Raises a s e t) : e.chain = [] := by
  cases h <;> rfl

/-- What fails has made its error itself, or it has it from something that goes on inside of it. -/
theorem raises_or_step (h : setting.Fails a s e t) :
    setting.Raises a s e t ∨
      ∃ opened b u e' t', setting.Step a s opened b u ∧ setting.Fails b u e' t' := by
  cases a with
  | request r =>
    have hserve : setting.requireModule r s = (.error (.failed e), t) := h
    rw [requireModule_eq] at hserve
    cases serves_iff.2 hserve with
    | cycle fresh busy => exact .inl (.cycle fresh busy)
    | failed fresh free load =>
      cases loads_iff.2 load with
      | resolvedFailed found run =>
        exact .inr ⟨_, _, _, _, _, .resolved fresh free found, fails_file.2 run⟩
      | resolvedStopped _ _ final => exact final.elim
      | ownFailed missing own =>
        change setting.ownModule setting.requireModule _ _ = _ at own
        obtain ⟨foreign, p, searched, run⟩ := ownModule_eq_error.1 own
        exact .inr ⟨_, _, _, _, _, .hosted fresh free missing foreign searched, fails_file.2 run⟩
      | unresolved missing own =>
        obtain ⟨foreign, unhosted, _, _⟩ := ownModule_eq_notFound.1 own
        have nowhere : setting.Nowhere r := nowhere_iff.2 ⟨missing, foreign, unhosted⟩
        obtain ⟨herror, hstate⟩ :=
          Prod.mk.inj (h.symm.trans (requireModule_of_nowhere fresh free nowhere))
        rw [Stop.failed.inj (Except.error.inj herror), hstate]
        exact .inl (.nowhere fresh free nowhere)
  | file p =>
    rcases Eval.bind_eq_error.1 h with h | ⟨c, u, text, h⟩
    · cases hread : setting.disk.readFile p with
      | error cause =>
        cases (load_of_error hread).symm.trans h
        exact .inl (.unread hread)
      | ok text =>
        rw [load_of_text hread] at h
        cases hchunk : Chunk.ofText text.2 (some p) with
        | error error =>
          rw [hchunk] at h
          cases h
          exact .inl (.unparsed hread hchunk)
        | ok c =>
          rw [hchunk] at h
          cases h
    · exact .inr ⟨_, .script c, u, _, _, .loaded text, h⟩
  | script c =>
    have hrun : setting.runChunk c s = (.error (.failed e), t) := h
    rw [runChunk_eq] at hrun
    obtain ⟨g, st, u, way, h⟩ := Frame.run_eq_error.1 hrun
    obtain ⟨locals, rfl⟩ := way.frame
    exact .inr ⟨_, .statement c locals st, u, _, _, .reached way, h⟩
  | statement c locals st =>
    -- That it is a request that failed is asked first: a statement is wrong by itself only if
    -- all its requests were answered.
    by_cases hrequest : ∃ q u e' t', (setting.frame c locals).PassesStatement st s ⟨some q, u⟩ ∧
        setting.requireModule q u = (.error (.failed e'), t')
    · obtain ⟨q, u, e', t', passed, failed⟩ := hrequest
      exact .inr ⟨_, .request q, u, e', t', .asked passed, failed⟩
    · have answered : ∀ q u, (setting.frame c locals).PassesStatement st s ⟨some q, u⟩ →
          ∃ v w, setting.requireModule q u = (.ok v, w) := by
        intro q u passed
        rcases ends_of_ne_tooDeep (setting.requireModule_ne_tooDeep q u)
          (fun _ => checked_of_requireModule) with hok | ⟨e', t', failed⟩ | ⟨_, t', stopped⟩
        · exact hok
        · exact absurd ⟨q, u, e', t', passed, failed⟩ hrequest
        · cases h.symm.trans (Frame.advance_of_stopped passed stopped)
      cases Frame.fails_of_advance h with
      | @fault fault among => exact .inl (.wrong fault among h answered)
      | request passed failed => exact absurd ⟨_, _, _, _, passed, failed⟩ hrequest

/-- Nothing goes on for ever inside of it. -/
def Settles (setting : Setting) (a : Activity) (s : State) : Prop :=
  Acc (fun b a : Activity × State => ∃ opened, setting.Step a.1 a.2 opened b.1 b.2) (a, s)

theorem settles_statement {c : Chunk} {locals : List (String × Value)} {st : Statement}
    (h : ∀ q u, (setting.frame c locals).PassesStatement st s ⟨some q, u⟩ →
      setting.Settles (.request q) u) : setting.Settles (.statement c locals st) s := by
  refine ⟨_, fun b ⟨_, next⟩ => ?_⟩
  obtain ⟨b, u⟩ := b
  cases next with
  | asked passed => exact h _ u passed

theorem settles_script {c : Chunk}
    (h : ∀ q u, setting.ChunkPasses c s ⟨some q, u⟩ → setting.Settles (.request q) u) :
    setting.Settles (.script c) s := by
  refine ⟨_, fun b ⟨_, next⟩ => ?_⟩
  obtain ⟨b, u⟩ := b
  cases next with
  | reached way => exact settles_statement fun q u passed => h q u (way.passesRun passed)

theorem settles_file {p : Path}
    (h : ∀ q u, setting.FilePasses p s ⟨some q, u⟩ → setting.Settles (.request q) u) :
    setting.Settles (.file p) s := by
  refine ⟨_, fun b ⟨_, next⟩ => ?_⟩
  obtain ⟨b, u⟩ := b
  cases next with
  | loaded text => exact settles_script fun q u passed => h q u (.run text passed)

theorem settles_request (setting : Setting) (q : Request) (s : State) :
    setting.Settles (.request q) s := by
  -- The induction is on the nesting of requests: from one to the next there are a file, its script
  -- and a statement, each once.
  suffices ∀ x : Request × State, setting.Settles (.request x.1) x.2 from this (q, s)
  intro x
  induction x using setting.wellFounded_nests.induction with
  | _ x ih =>
    refine ⟨_, fun b ⟨_, next⟩ => ?_⟩
    obtain ⟨b, u⟩ := b
    cases next with
    | resolved fresh free found =>
      exact settles_file fun q u passed => ih (q, u) ⟨fresh, free, .resolved found passed⟩
    | hosted fresh free missing foreign searched =>
      exact settles_file fun q u passed =>
        ih (q, u) ⟨fresh, free, .own missing (.hosted foreign searched passed)⟩

theorem wellFounded_step (setting : Setting) :
    WellFounded fun b a : Activity × State => ∃ opened, setting.Step a.1 a.2 opened b.1 b.2 := by
  refine ⟨fun ⟨a, s⟩ => ?_⟩
  cases a with
  | request q => exact setting.settles_request q s
  | file p => exact settles_file fun q u _ => setting.settles_request q u
  | script c => exact settles_script fun q u _ => setting.settles_request q u
  | statement c locals st => exact settles_statement fun q u _ => setting.settles_request q u

/-- Every error was made somewhere inside of what fails. -/
theorem exists_raises (h : setting.Fails a s e t) :
    ∃ loads running b u e₀ v,
      setting.Inside a s loads running b u ∧ setting.Raises b u e₀ v := by
  suffices ∀ x : Activity × State, ∀ loads running e t,
      setting.Inside a s loads running x.1 x.2 → setting.Fails x.1 x.2 e t →
      ∃ loads running b u e₀ v, setting.Inside a s loads running b u ∧ setting.Raises b u e₀ v from
    this (a, s) [] none e t .start h
  intro x
  induction x using setting.wellFounded_step.induction with
  | _ x ih =>
    intro loads running e t inside h
    rcases raises_or_step h with raises | ⟨opened, b, u, e', t', next, failed⟩
    · exact ⟨loads, running, x.1, x.2, e, t, inside, raises⟩
    · exact ih (b, u) ⟨opened, next⟩ _ _ e' t' (inside.step next) failed

/-- The keys of requests are on the stack, on top of others. No key stands there twice, and none is
in the cache. -/
structure Stacked (base : List String) (loads : List Request) (s : State) : Prop where
  loading_eq : s.loading = base ++ loads.map Request.key
  nodup : (loads.map Request.key).Nodup
  apart : ∀ q ∈ loads, q.key ∉ base
  fresh : ∀ q ∈ loads, s.cache.get? q.key = none

namespace Stacked

variable {base : List String}

theorem nil (s : State) : Stacked s.loading [] s where
  loading_eq := (List.append_nil _).symm
  nodup := List.nodup_nil
  apart _ hq := absurd hq List.not_mem_nil
  fresh _ hq := absurd hq List.not_mem_nil

theorem evolves (h : Stacked base loads s) (hbody : setting.Evolves s t) :
    Stacked base loads t where
  loading_eq := hbody.loading_eq.trans h.loading_eq
  nodup := h.nodup
  apart := h.apart
  fresh q hq := by
    refine hbody.get?_of_loading ?_ (h.fresh q hq)
    rw [h.loading_eq]
    exact List.mem_append_right _ (List.mem_map_of_mem hq)

theorem push {q : Request} (h : Stacked base loads s) (fresh : s.cache.get? q.key = none)
    (free : q.key ∉ s.loading) : Stacked base (loads ++ [q]) (s.push q.key) := by
  rw [h.loading_eq, List.mem_append, not_or] at free
  obtain ⟨hbase, hloads⟩ := free
  refine ⟨?_, ?_, fun r hr => ?_, fun r hr => ?_⟩
  · rw [List.map_append, ← List.append_assoc, ← h.loading_eq]
    rfl
  · rw [List.map_append]
    refine List.nodup_append.2 ⟨h.nodup, List.pairwise_singleton _ _, fun a ha b hb => ?_⟩
    rw [List.mem_singleton.1 hb]
    rintro rfl
    exact hloads ha
  · rcases List.mem_append.1 hr with hr | hr
    · exact h.apart r hr
    · exact List.mem_singleton.1 hr ▸ hbase
  · rcases List.mem_append.1 hr with hr | hr
    · exact h.fresh r hr
    · exact List.mem_singleton.1 hr ▸ fresh

end Stacked

theorem Step.stacked {base : List String} (h : setting.Step a s opened b u)
    (hs : Stacked base loads s) : Stacked base (loads ++ opened) u := by
  rcases h.evolves with ⟨rfl, hbody⟩ | ⟨q, rfl, fresh, free, hbody⟩
  · rw [List.append_nil]
    exact hs.evolves hbody
  · exact (hs.push fresh free).evolves hbody

/-- Inside of something the stack holds the keys of the requests whose files are open there. -/
theorem Inside.stacked (h : setting.Inside a s loads running b u) :
    Stacked s.loading loads u := by
  induction h with
  | start => exact .nil s
  | step _ next ih => exact next.stacked ih

/-- The error of what fails is the one that was made inside of it, as it came out. -/
theorem Inside.error_eq {e₀ : ModuleError} (h : setting.Inside a s loads running b u)
    (raises : setting.Raises b u e₀ v) (failed : setting.Fails a s e t) :
    e = e₀.carried (Activity.place? running) (loads.filterMap setting.chainStep?).reverse ∧
      t = { v with loading := s.loading } :=
  Fails.unique failed (h.fails raises.fails)

end Setting

end ScriptBuild
