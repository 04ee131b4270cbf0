import ScriptBuild.Proofs.Import.Nesting

/-!
# Where errors come from

An error is made by reading a text, by serving a request or by a statement that is wrong; on its way
out it keeps its cause. Main statement: `exists_creates_of_requireModule` finds the request that made
an error about a module that is nowhere, or about a cycle, however deep inside of the request that
fails.
-/

namespace ScriptBuild

open Script (Chunk)

/-- Serving a request makes errors with this cause, and nothing else does. -/
def ErrorCause.OfRequest : ErrorCause → Prop
  | .unresolved .. | .cycle _ => True
  | .parse .. | .evaluation _ | .io .. => False

/-- Reading a text makes errors with this cause, and nothing else does. -/
def ErrorCause.OfText : ErrorCause → Prop
  | .parse .. | .io .. => True
  | .unresolved .. | .cycle _ | .evaluation _ => False

theorem ErrorCause.OfRequest.not_ofText {cause : ErrorCause} (h : cause.OfRequest) :
    ¬ cause.OfText := by
  cases cause with
  | unresolved | cycle => exact id
  | parse | evaluation | io => exact h.elim

namespace Setting

variable {setting : Setting} {r q : Request} {s t u : State} {e : ModuleError}

/-- The request makes an error with this cause, without running any script. -/
inductive Creates (setting : Setting) (q : Request) (u : State) : ErrorCause → Prop where
  /-- The key is being loaded. -/
  | cycle (fresh : u.cache.get? q.key = none) (busy : q.key ∈ u.loading) :
      Creates setting q u (.cycle (u.loading ++ [q.key]))
  /-- The module is nowhere. -/
  | unresolved (fresh : u.cache.get? q.key = none) (free : q.key ∉ u.loading)
      (missing : setting.resolved? q = none) (foreign : builtinModule? q.specifier = none)
      (unhosted : setting.searchPath q.specifier = none) :
      Creates setting q u (.unresolved q.specifier q.origin (setting.refusal q).1
        (setting.refusal q).2 (setting.notFoundText q.specifier))

/-- Only a request is to blame for an error about a module. -/
theorem request_of_blame {serve : Request → Eval Value} {passes : Moment → Prop}
    {cause : ErrorCause} (h : Blame serve passes cause) (hcause : cause.OfRequest) :
    ∃ q u e t, passes ⟨some q, u⟩ ∧ serve q u = (.error (.failed e), t) ∧ e.cause = cause := by
  cases h with
  | statement => exact hcause.elim
  | request asked failed => exact ⟨_, _, _, _, asked, failed, rfl⟩

theorem blame_of_execute {c : Chunk}
    (h : setting.execute setting.requireModule c s = (.error (.failed e), t)) :
    Blame setting.requireModule (setting.ChunkPasses c s) e.cause :=
  Frame.blame_of_run h

theorem cause_of_load {p : Path} (h : setting.load p s = (.error (.failed e), t)) :
    e.cause.OfText := by
  cases hread : setting.disk.readFile p with
  | error cause =>
    rw [load_of_error hread] at h
    cases h
    trivial
  | ok text =>
    rw [load_of_text hread] at h
    cases hchunk : Chunk.ofText text.2 (some p) with
    | error fault =>
      rw [hchunk] at h
      cases h
      trivial
    | ok c =>
      rw [hchunk] at h
      cases h

theorem blame_of_runFile {p : Path}
    (h : setting.runFile setting.requireModule p s = (.error (.failed e), t))
    (hcause : ¬ e.cause.OfText) :
    Blame setting.requireModule (setting.FilePasses p s) e.cause := by
  rcases Eval.bind_eq_error.1 h with h | ⟨c, u, loaded, h⟩
  · exact absurd (cause_of_load h) hcause
  · exact (blame_of_execute h).mono fun _ => .run loaded

theorem blame_of_ownModule {specifier : String}
    (h : setting.ownModule setting.requireModule specifier s = (.error (.failed e), t))
    (hcause : ¬ e.cause.OfText) :
    Blame setting.requireModule (setting.OwnPasses specifier s) e.cause := by
  obtain ⟨foreign, p, searched, run⟩ := ownModule_eq_error.1 h
  exact (blame_of_runFile run hcause).mono fun _ => .hosted foreign searched

/-- Serving a request that starts a load makes an error itself, because its module is nowhere, unless
it comes out of the script that is loaded. -/
theorem creates_or_blame (fresh : s.cache.get? r.key = none) (free : r.key ∉ s.loading)
    (h : setting.loadModule (setting.loader setting.requireModule) r (s.push r.key) =
      (.error (.failed e), t))
    (hcause : ¬ e.cause.OfText) :
    setting.Creates r s e.cause ∨ Blame setting.requireModule (setting.During r s) e.cause := by
  cases loads_iff.2 h with
  | resolvedFailed found run =>
    exact .inr ((blame_of_runFile run hcause).mono fun _ hm => ⟨fresh, free, .resolved found hm⟩)
  | resolvedStopped _ _ final => exact final.elim
  | ownFailed missing own =>
    exact .inr ((blame_of_ownModule own hcause).mono fun _ hm => ⟨fresh, free, .own missing hm⟩)
  | unresolved missing own =>
    obtain ⟨foreign, unhosted, rfl, _⟩ := ownModule_eq_notFound.1 own
    exact .inl (.unresolved fresh free missing foreign unhosted)

/-- An error about a module was made by a request, however deep inside of the request that fails. -/
theorem exists_creates_of_requireModule
    (h : setting.requireModule r s = (.error (.failed e), t)) (hcause : e.cause.OfRequest) :
    ∃ outer q u, setting.Within (Asking r s) outer ⟨some q, u⟩ ∧ setting.Creates q u e.cause := by
  -- The requests nested in the failing one are the cases of a well-founded induction.
  suffices ∀ a : Request × State, ∀ e t,
      setting.requireModule a.1 a.2 = (.error (.failed e), t) → e.cause.OfRequest →
      ∃ outer q u, setting.Within (Asking a.1 a.2) outer ⟨some q, u⟩ ∧
        setting.Creates q u e.cause from
    this (r, s) e t h hcause
  intro a
  induction a using setting.wellFounded_nests.induction with
  | _ a ih =>
    intro e t h hcause
    have asked : setting.Within (Asking a.1 a.2) [] ⟨some a.1, a.2⟩ := .direct rfl
    rw [requireModule_eq] at h
    cases serves_iff.2 h with
    | cycle fresh busy => exact ⟨[], a.1, a.2, asked, .cycle fresh busy⟩
    | failed fresh free load =>
      rcases creates_or_blame fresh free load hcause.not_ofText with hcreates | hblame
      · exact ⟨[], a.1, a.2, asked, hcreates⟩
      · obtain ⟨q, u, e', t', during, hfailed, hcause'⟩ := request_of_blame hblame hcause
        obtain ⟨outer, q', u', hwithin, hcreates⟩ :=
          ih (q, u) during e' t' hfailed (hcause' ▸ hcause)
        rw [hcause'] at hcreates
        exact ⟨[] ++ [a.1] ++ outer, q', u', (asked.nested during).trans hwithin, hcreates⟩

/-- An error about a module that comes out of moments was made by a request inside of them. -/
theorem exists_creates_of_blame {top : Moment → Prop} {cause : ErrorCause}
    (h : Blame setting.requireModule top cause) (hcause : cause.OfRequest) :
    ∃ outer q u, setting.Within top outer ⟨some q, u⟩ ∧ setting.Creates q u cause := by
  obtain ⟨q, u, e, t, asked, failed, rfl⟩ := request_of_blame h hcause
  obtain ⟨outer, q', u', hwithin, hcreates⟩ := exists_creates_of_requireModule failed hcause
  exact ⟨[] ++ outer, q', u', Within.trans (.direct asked) hwithin, hcreates⟩

end Setting

end ScriptBuild
