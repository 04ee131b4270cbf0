import ScriptBuild.FileSystem.Build
import ScriptBuild.Proofs.Import.Activity

/-!
# The chain of imports

The chain of an error lists the files that the search directories led to and that are open where the
error was made. `Leaves` reads the same off the history: a file is open from when it was entered until
its script has run to its end. Main statement: `chain_lists_open_files`.
-/

namespace ScriptBuild

open Script (Builtin Chunk Statement)

/-- The files that are open after an event, the innermost first. -/
def Event.openNext (opened : List ImportStep) : Event → List ImportStep
  | .entered step => step :: opened
  | .left step => opened.erase step
  | _ => opened

/-- The files that are open after events. -/
def openAfter (opened : List ImportStep) (events : List Event) : List ImportStep :=
  events.foldl Event.openNext opened

theorem openAfter_append (opened : List ImportStep) (before after : List Event) :
    openAfter opened (before ++ after) = openAfter (openAfter opened before) after :=
  List.foldl_append

/-- The history goes on from one state to another one, and these files are left open by it. -/
def State.Leaves (s t : State) (steps : List ImportStep) : Prop :=
  ∃ events, t.history = s.history ++ events ∧
    ∀ opened, openAfter opened events = steps ++ opened

namespace State.Leaves

variable {s t u : State} {steps more : List ImportStep}

theorem of_kept (history : t.history = s.history) : s.Leaves t [] :=
  ⟨[], history.trans (List.append_nil _).symm, fun _ => rfl⟩

theorem refl (s : State) : s.Leaves s [] :=
  of_kept rfl

theorem trans (h : s.Leaves t steps) (h' : t.Leaves u more) : s.Leaves u (more ++ steps) := by
  obtain ⟨before, hbefore, hsteps⟩ := h
  obtain ⟨after, hafter, hmore⟩ := h'
  refine ⟨before ++ after, ?_, fun opened => ?_⟩
  · rw [hafter, hbefore, List.append_assoc]
  · rw [openAfter_append, hsteps, hmore, List.append_assoc]

/-- An event that neither opens nor closes a file. -/
theorem of_event {event : Event} (history : t.history = s.history ++ [event])
    (idle : ∀ opened, Event.openNext opened event = opened) : s.Leaves t [] :=
  ⟨[event], history, idle⟩

theorem entered (s : State) (step : ImportStep) : s.Leaves (s.log (.entered step)) [step] :=
  ⟨[.entered step], rfl, fun _ => rfl⟩

/-- A file that was left is open no more. -/
theorem left {step : ImportStep} (h : s.Leaves t [step]) : s.Leaves (t.log (.left step)) [] := by
  obtain ⟨events, hevents, hopen⟩ := h
  refine ⟨events ++ [.left step], ?_, fun opened => ?_⟩
  · rw [State.log, hevents, List.append_assoc]
  · rw [openAfter_append, hopen]
    exact List.erase_cons_head step opened

/-- Only the history matters. -/
theorem congr {s' t' : State} (h : s.Leaves t steps) (hs : s'.history = s.history)
    (ht : t'.history = t.history) : s'.Leaves t' steps := by
  obtain ⟨events, hevents, hopen⟩ := h
  exact ⟨events, by rw [ht, hs, hevents], hopen⟩

end State.Leaves

/-- A computation that comes to a value closes the files that it opened. One that fails leaves the
chain of its error open. -/
structure Eval.Traced ⦃α : Type⦄ (x : Eval α) : Prop where
  ok : ∀ {s a t}, x s = (.ok a, t) → s.Leaves t []
  failed : ∀ {s e t}, x s = (.error (.failed e), t) → s.Leaves t e.chain

namespace Eval.Traced

variable {α β : Type}

/-- A computation that always comes to a value, and opens and closes nothing. -/
theorem of_ok {x : Eval α} (h : ∀ s, ∃ a t, x s = (.ok a, t) ∧ s.Leaves t []) : Traced x where
  ok {s _ _} hout := by
    obtain ⟨a, u, hok, hleaves⟩ := h s
    cases hok.symm.trans hout
    exact hleaves
  failed {s _ _} hout := by
    obtain ⟨a, u, hok, _⟩ := h s
    cases hok.symm.trans hout

theorem pure (a : α) : Traced (Pure.pure a : Eval α) :=
  of_ok fun s => ⟨a, s, rfl, .refl s⟩

theorem bind {x : Eval α} {g : α → Eval β} (hx : Traced x) (hg : ∀ a, Traced (g a)) :
    Traced (x >>= g) where
  ok h := by
    obtain ⟨a, u, hfirst, h⟩ := Eval.bind_eq_ok.1 h
    exact (hx.ok hfirst).trans ((hg a).ok h)
  failed h := by
    rcases Eval.bind_eq_error.1 h with h | ⟨a, u, hfirst, h⟩
    · exact hx.failed h
    · have hleaves := (hx.ok hfirst).trans ((hg a).failed h)
      rwa [List.append_nil] at hleaves

/-- What is put together of traced computations is traced. -/
theorem congruence : Eval.Congruence fun _ x _ => Traced x where
  value a := .pure a
  failure fault loc := {
    ok := fun h => by cases h
    failed := fun h => by
      cases h
      exact .refl _ }
  state := of_ok fun s => ⟨s, s, rfl, .refl s⟩
  counted := of_ok fun _ => ⟨_, _, rfl, .of_kept rfl⟩
  exported _ _ := of_ok fun _ => ⟨_, _, rfl, .of_kept rfl⟩
  linked _ := of_ok fun _ => ⟨_, _, rfl, .of_kept rfl⟩
  sequence hx hf := hx.bind hf
  relocated loc x _ hx := {
    ok := fun h => hx.ok (Eval.mapError_eq_ok.1 h)
    failed := fun h => by
      obtain ⟨inner, hout, rfl⟩ := Eval.mapError_eq_failed.1 h
      show State.Leaves _ _ inner.chain
      exact hx.failed hout }

end Eval.Traced

namespace Setting

open Eval (Traced)

variable {setting : Setting} {serve : Request → Eval Value} {s t : State}

theorem traced_importConstants (f : Frame) (function : Builtin) (directories : List Path)
    (target : String) : Traced (f.importConstants function directories target) := by
  rcases hscan : f.scan function directories target with (cause | _) | scan
  · refine ⟨fun h => ?_, fun h => ?_⟩
    · rw [Frame.importConstants_of_error hscan] at h
      cases h
    · rw [Frame.importConstants_of_error hscan] at h
      cases h
      exact .refl _
  · refine ⟨fun h => ?_, fun h => ?_⟩
    · rw [Frame.importConstants_of_overflow hscan] at h
      cases h
    · rw [Frame.importConstants_of_overflow hscan] at h
      cases h
  · exact .of_ok fun s => ⟨_, _, Frame.importConstants_of_scan hscan s,
      .of_event rfl fun _ => rfl⟩

theorem traced_related (f : Frame) : Frame.Related (fun _ x _ => Traced x) f f :=
  ⟨rfl, rfl, rfl, fun _ _ _ _ _ => traced_importConstants _ _ _ _⟩

theorem traced_execute (hserve : ∀ r, Traced (serve r)) (c : Chunk) :
    Traced (setting.execute serve c) :=
  @Eval.Congruence.execute _ Traced.congruence setting setting serve serve c
    (fun f _ => traced_importConstants f) fun specifier _ => hserve ⟨specifier, c.origin⟩

theorem traced_advance {f : Frame} (hserve : ∀ r, Traced (f.serve r)) (st : Statement) :
    Traced (f.advance st) := by
  have hrelated := (traced_related f).at_position st.position
  refine (Traced.congruence.eval hrelated st.action.expr fun _ _ => hserve _).bind fun v => ?_
  exact (Traced.congruence.performing hrelated st.action v).bind fun _ => .pure _

theorem traced_load (p : Path) : Traced (setting.load p) := by
  cases hread : setting.disk.readFile p with
  | error cause =>
    refine ⟨fun h => ?_, fun h => ?_⟩
    · rw [load_of_error hread] at h
      cases h
    · rw [load_of_error hread] at h
      cases h
      exact .refl _
  | ok text =>
    have hevent (s : State) : s.Leaves (s.log (.read text.1.toPath)) [] :=
      .of_event rfl fun _ => rfl
    refine ⟨fun h => ?_, fun h => ?_⟩ <;> rw [load_of_text hread] at h <;> split at h <;> cases h
    · exact hevent _
    · exact hevent _

theorem traced_runFile (hserve : ∀ r, Traced (serve r)) (p : Path) :
    Traced (setting.runFile serve p) :=
  (traced_load p).bind fun c => traced_execute hserve c

theorem traced_ownModule (hserve : ∀ r, Traced (serve r)) (specifier : String) :
    Traced (setting.ownModule serve specifier) :=
  @Eval.Congruence.ownModule _ Traced.congruence setting serve serve specifier
    (traced_runFile hserve)

/-- Loading a module leaves nothing open, or the chain of the error with which it fails. -/
theorem traced_loadModule (hserve : ∀ r, Traced (serve r)) (r : Request) :
    Traced (setting.loadModule (setting.loader serve) r) where
  ok {s _ t} h := by
    cases loads_iff.2 h with
    | @resolved file v t found run =>
      have hbody := (traced_runFile hserve file).ok run
      exact ((State.Leaves.entered s _).trans hbody).left.congr rfl rfl
    | own missing own => exact (traced_ownModule hserve r.specifier).ok own
  failed {s _ t} h := by
    cases loads_iff.2 h with
    | @resolvedFailed file e t found run =>
      -- The file is not left, and is the last entry of the chain.
      have hbody := (traced_runFile hserve file).failed run
      exact (State.Leaves.entered s _).trans hbody
    | resolvedStopped _ _ final => exact final.elim
    | ownFailed missing own => exact (traced_ownModule hserve r.specifier).failed own
    | unresolved missing own => exact (traced_ownModule hserve r.specifier).ok own

theorem leaves_register (locate : String → Option Path) (m : CachedModule Value)
    (specifier : String) (s : State) :
    s.Leaves (setting.register locate m specifier s).2 [] := by
  rcases hkey : s.cache.get? m.key with _ | taken
  · rw [register_of_new hkey]
    exact .of_event rfl fun _ => rfl
  · rw [register_of_taken hkey]
    exact .refl s

/-- Serving a request leaves nothing open, or the chain of the error with which it fails. -/
theorem traced_serve (hserve : ∀ r, Traced (serve r)) (r : Request) :
    Traced (setting.serve (setting.loader serve) r) where
  ok {s _ t} h := by
    cases serves_iff.2 h with
    | cached => exact .refl s
    | @loaded _ source u fresh free load =>
      have hload : s.Leaves u.pop [] := ((traced_loadModule hserve r).ok load).congr rfl rfl
      exact hload.trans (leaves_register _ _ _ _)
  failed {s _ t} h := by
    cases serves_iff.2 h with
    | cycle => exact .refl s
    | failed fresh free load => exact ((traced_loadModule hserve r).failed load).congr rfl rfl

theorem traced_require (setting : Setting) (n : Nat) (r : Request) :
    Traced (setting.require n r) := by
  induction n generalizing r with
  | zero =>
    refine ⟨fun h => ?_, fun h => ?_⟩ <;> cases h
  | succ n ih => exact traced_serve ih r

/-- What fails leaves the chain of its error open. -/
theorem Fails.leaves {a : Activity} {e : ModuleError} (h : setting.Fails a s e t) :
    s.Leaves t e.chain := by
  have hserve : ∀ r, Traced (setting.requireModule r) := fun r => setting.traced_require _ r
  cases a with
  | request r => exact (hserve r).failed h
  | file p => exact (traced_runFile hserve p).failed (fails_file.1 h)
  | script c =>
    have hrun : setting.runChunk c s = (.error (.failed e), t) := h
    rw [runChunk_eq] at hrun
    exact (traced_execute hserve c).failed hrun
  | statement c locals st =>
    have hadvance : Traced ((setting.frame c locals).advance st) := traced_advance hserve st
    exact hadvance.failed h

/-- Whatever fails, be it a request, a file or a script, the chain of its error lists the files that
the search directories led to and that were open where the error was made, the innermost first. There
is such a place inside of what fails, and wherever it is: the stack holds there the keys of the
requests whose files are open, each of them once and none that is in the cache; those for which the
search directories found a file are the entries of the chain, each with the canonical path of its
file, also if it is this file that cannot be read or parsed. A file under the templates has no entry,
and one that is open under two keys, as in a circle of relative imports, has one for each. The history
says the same: what it entered and did not leave is the chain. -/
theorem chain_lists_open_files {setting : Setting} {a : Activity} {s t : State} {e : ModuleError}
    (h : setting.Fails a s e t) :
    (∃ loads running b u e₀ v,
      setting.Inside a s loads running b u ∧ setting.Raises b u e₀ v) ∧
    (∀ loads running b u e₀ v, setting.Inside a s loads running b u → setting.Raises b u e₀ v →
      e.cause = e₀.cause ∧ t = { v with loading := s.loading } ∧ Stacked s.loading loads v ∧
      e.chain = (loads.filterMap setting.chainStep?).reverse) ∧
    (∃ events, t.history = s.history ++ events ∧ openAfter [] events = e.chain) ∧
    ∀ step ∈ e.chain, setting.disk.canonicalize step.path = .ok step.path := by
  have made : ∀ loads running b u e₀ v, setting.Inside a s loads running b u →
      setting.Raises b u e₀ v → e.cause = e₀.cause ∧ t = { v with loading := s.loading } ∧
        Stacked s.loading loads v ∧ e.chain = (loads.filterMap setting.chainStep?).reverse := by
    intro loads running b u e₀ v inside raises
    obtain ⟨rfl, hstate⟩ := inside.error_eq raises h
    refine ⟨rfl, hstate, inside.stacked.evolves raises.fails.evolves, ?_⟩
    show e₀.chain ++ _ = _
    rw [raises.chain_eq, List.nil_append]
  have inner := exists_raises h
  refine ⟨inner, made, ?_, ?_⟩
  · obtain ⟨events, hevents, hopen⟩ := h.leaves
    exact ⟨events, hevents, (hopen []).trans (List.append_nil _)⟩
  · obtain ⟨loads, running, b, u, e₀, v, inside, raises⟩ := inner
    rw [(made loads running b u e₀ v inside raises).2.2.2]
    intro step hstep
    obtain ⟨q, _, hq⟩ := List.mem_filterMap.1 (List.mem_reverse.1 hstep)
    obtain ⟨file, found, rfl⟩ := Option.map_eq_some_iff.1 hq
    exact canonicalize_of_resolved found

/-- A script that does not parse is asked for by way of one under a template. The chain passes over
that one, and over a module that was loaded before. -/
theorem broken_module_chain :
    let disk := FileSystem.ofEntries ⟨"/"⟩
      [(⟨"/main.t"⟩, .file (.text "require \"done\"\nreturn require \"a\"\n")),
        (⟨"/lib/done.t"⟩, .file (.text "return 1\n")),
        (⟨"/lib/a.t"⟩, .file (.text "return require \"host\"\n")),
        (⟨"/host.t"⟩, .file (.text "return require \"b\"\n")),
        (⟨"/lib/b.t"⟩, .file (.text "return (\n"))]
    let setting : Setting := ⟨disk, ⟨[⟨"/lib"⟩], "t"⟩, defaultTemplates, .checked⟩
    ∃ e t, setting.Fails (.file ⟨"/main.t"⟩) .empty e t ∧
      e.chain = [⟨⟨"/lib/b.t"⟩, "b"⟩, ⟨⟨"/lib/a.t"⟩, "a"⟩] ∧
      (∃ loads running b u e₀ v, setting.Inside (.file ⟨"/main.t"⟩) .empty loads running b u ∧
        setting.Raises b u e₀ v ∧
        loads.filterMap setting.chainStep? = [⟨⟨"/lib/a.t"⟩, "a"⟩, ⟨⟨"/lib/b.t"⟩, "b"⟩]) ∧
      openAfter [] t.history = [⟨⟨"/lib/b.t"⟩, "b"⟩, ⟨⟨"/lib/a.t"⟩, "a"⟩] := by
  intro disk setting
  have hchain : (failure? ((setting.load ⟨"/main.t"⟩ >>= setting.runChunk) .empty).1).map
      (·.chain) = some [⟨⟨"/lib/b.t"⟩, "b"⟩, ⟨⟨"/lib/a.t"⟩, "a"⟩] := by
    decide +kernel
  rcases hout : (setting.load ⟨"/main.t"⟩ >>= setting.runChunk) .empty with ⟨outcome, t⟩
  rw [hout] at hchain
  obtain ⟨e, he, hsteps⟩ := Option.map_eq_some_iff.1 hchain
  have failed : setting.Fails (.file ⟨"/main.t"⟩) .empty e t :=
    hout.trans (congrArg (·, t) (eq_failed_of_failure? he))
  obtain ⟨⟨loads, running, b, u, e₀, v, inside, raises⟩, made, ⟨events, hhistory, hopen⟩, _⟩ :=
    chain_lists_open_files failed
  refine ⟨e, t, failed, hsteps, ⟨loads, running, b, u, e₀, v, inside, raises, ?_⟩, ?_⟩
  · have hloads := (made loads running b u e₀ v inside raises).2.2.2
    exact List.reverse_eq_iff.1 (hloads.symm.trans hsteps)
  · rw [hhistory, ← hsteps]
    exact hopen

end Setting

end ScriptBuild
