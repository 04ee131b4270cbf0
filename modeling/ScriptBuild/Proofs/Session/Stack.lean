import ScriptBuild.Machine.Plain
import ScriptBuild.Proofs.Import.Stack
import ScriptBuild.Proofs.Session.Changes

/-!
# The stack of a session

Between the steps of a session nothing is being loaded. Inside of a step the stack holds the keys of
the loads that go on, each once and none that is in the cache. Main statement: `stack_discipline`.
-/

namespace ScriptBuild.Session

open Script (Chunk)

/-- The moments of a step: its two ends, and those of the scripts that it runs. -/
inductive Passes (s : Session) : Step → Moment → Prop where
  | before (x : Step) : Passes s x ⟨none, s.state⟩
  | after (x : Step) : Passes s x ⟨none, (s.step x).2.state⟩
  | asked (r : Request) : Passes s (.require r) ⟨some r, s.state⟩
  | ran {source : String} {c : Chunk} {m : Moment} (chunk : Chunk.ofText source none = .ok c)
      (inner : s.setting.ChunkPasses c s.state m) : Passes s (.exec source) m
  | ranFile {p : Path} {m : Moment} (inner : s.setting.FilePasses p s.state m) :
      Passes s (.execFile p) m
  | looked {specifier : String} {m : Moment}
      (inner : s.setting.OwnPasses specifier s.state m) : Passes s (.importOwn specifier) m

/-- The error of a module that a step ends in. -/
def Answer.failure? : Answer → Option ModuleError
  | .value (.error (.failed e)) | .chunk (.error (.failed e)) | .own (.error (.failed e)) => some e
  | _ => none

/-- In the moments of a step itself nothing is being loaded. -/
theorem Passes.loading_eq {s : Session} {x : Step} {m : Moment} (h : s.Passes x m) :
    m.state.loading = s.state.loading := by
  cases h with
  | before | asked => rfl
  | after => exact (changes_step s x).loading_eq
  | ran _ inner => exact inner.evolves.loading_eq
  | ranFile inner => exact inner.evolves.loading_eq
  | looked inner => exact inner.evolves.loading_eq

/-- Without a load in progress, the bare loader finds no cycle. -/
theorem cause_of_requireBare {setting : Setting} {r : Request} {s t : State} {e : ModuleError}
    (idle : s.loading = []) (h : setting.requireBare r s = (.error (.failed e), t)) :
    ∃ text, e = .unresolved r.specifier r.origin (setting.refusal r).1 (setting.refusal r).2
      text := by
  cases Setting.serves_iff.2 h with
  | cycle _ busy =>
    rw [idle] at busy
    cases busy
  | failed _ _ load =>
    obtain ⟨text, he⟩ := (Setting.loadModule_bare load).2.2.2 _ rfl
    cases he
    exact ⟨text, rfl⟩

/-- A step that fails with a cycle does so by a request in one of its moments. -/
theorem blame_of_step {s : Session} (idle : s.state.loading = []) {x : Step} {e : ModuleError}
    {keys : List String} (h : (s.step x).1.failure? = some e) (hcause : e.cause = .cycle keys) :
    Blame s.setting.requireModule (s.Passes x) (.cycle keys) := by
  have failed : ∀ {α : Type} {y : Eval α} {answer : Except Stop α → Answer},
      (s.perform answer y).1.failure? = some e →
      (∀ outcome, (answer outcome).failure? = some e → outcome = .error (.failed e)) →
      ∃ t, y s.state = (.error (.failed e), t) := by
    intro α y answer hy hanswer
    exact ⟨(y s.state).2, Prod.ext (hanswer _ hy) rfl⟩
  have value : ∀ outcome, (Answer.value outcome).failure? = some e →
      outcome = .error (.failed e) := by
    rintro ((e' | _) | v) he <;> cases he
    rfl
  cases x with
  | require r =>
    obtain ⟨t, ht⟩ := failed h value
    exact hcause ▸ Blame.request (.asked r) ht
  | requireBare r =>
    obtain ⟨t, ht⟩ := failed h value
    obtain ⟨text, rfl⟩ := cause_of_requireBare idle ht
    cases hcause
  | exec source =>
    rcases hchunk : Chunk.ofText source none with fault | c
    · simp only [step, hchunk] at h
      cases h
    · simp only [step, hchunk] at h
      obtain ⟨t, ht⟩ := failed h value
      rw [Setting.runChunk_eq] at ht
      have hblame := Setting.blame_of_execute ht
      rw [hcause] at hblame
      exact hblame.mono fun _ => .ran hchunk
  | execFile p =>
    obtain ⟨t, ht⟩ := failed h value
    simp only [Setting.runChunk_eq] at ht
    have hblame := Setting.blame_of_runFile ht (hcause ▸ id)
    rw [hcause] at hblame
    exact hblame.mono fun _ => .ranFile
  | load p =>
    obtain ⟨t, ht⟩ := failed h (by
      rintro ((e' | _) | v) he <;> cases he
      rfl)
    exact absurd (Setting.cause_of_load ht) (hcause ▸ id)
  | importOwn specifier =>
    obtain ⟨t, ht⟩ := failed h (by
      rintro ((e' | _) | v) he <;> cases he
      rfl)
    rw [Setting.importOwn_eq] at ht
    have hblame := Setting.blame_of_ownModule ht (hcause ▸ id)
    rw [hcause] at hblame
    exact hblame.mono fun _ => .looked
  | emit depfile target root =>
    change (Session.emit s depfile target root).1.failure? = some e at h
    unfold Session.emit at h
    split at h <;> cases h
  | register key specifier value source =>
    change (Session.register s key specifier value source).1.failure? = some e at h
    unfold Session.register at h
    dsimp only at h
    split at h <;> cases h
  | searchPath | cached | record | inject | exports | exportValue | save | write | remove => cases h

/-- In every session that starts with nothing being loaded, whatever its steps are and however they
end, nothing is being loaded between them. At every moment inside of a step, the stack is the keys
of the loads that go on, each asked for during the one before it; no key is on it twice and none is
in the cache. Each request made at such a moment leaves the stack as it was, leaves its key out of
the cache if it fails, and has its module registered if it loads it. A step that fails with a cycle
does so because of a request for a key that was on the stack: the cycle is that stack and the key. -/
theorem stack_discipline (s : Session) (idle : s.state.loading = []) (xs : List Step) (x : Step) :
    let now := s.afterSteps xs
    now.state.loading = [] ∧
    (∀ outer m, now.setting.Within (now.Passes x) outer m →
      m.state.loading = outer.map Request.key ∧ m.state.Orderly ∧
      ∀ r, m.request = some r →
        now.setting.Disciplined r m.state ∧ List.IsChain now.setting.Asks (outer ++ [r])) ∧
    ∀ e keys, (now.step x).1.failure? = some e → e.cause = .cycle keys →
      ∃ outer q u, now.setting.Within (now.Passes x) outer ⟨some q, u⟩ ∧
        Setting.Closes q u keys := by
  intro now
  have hidle : now.state.loading = [] := by
    rw [loading_afterSteps, idle]
  refine ⟨hidle, fun outer m h => ?_, fun e keys h hcause => ?_⟩
  · have htop : ∀ m, now.Passes x m → m.state.loading = [] ∧ m.state.Orderly := by
      intro m hm
      have hm' : m.state.loading = [] := hm.loading_eq.trans hidle
      exact ⟨hm', State.orderly_of_idle hm'⟩
    obtain ⟨hloading, horderly⟩ := h.stack htop
    exact ⟨hloading, horderly, fun r hr => ⟨now.setting.disciplined r m.state, h.chain hr⟩⟩
  · exact Setting.exists_closes_of_blame (blame_of_step hidle h hcause)

/-- Two scripts that ask for each other close a cycle each time one of them is asked for: the first
one is loaded anew for the second one, so the cycle is found at the second request for that. -/
theorem mutual_import_closes :
    let disk := FileSystem.ofEntries ⟨"/"⟩
      [(⟨"/a.t"⟩, .file (.text "return require \".b\"\n")),
        (⟨"/b.t"⟩, .file (.text "return require \".a\"\n"))]
    let s : Session := ⟨.plain {}, ⟨disk, ⟨[], "t"⟩, [], .checked⟩, State.empty⟩
    let x := Step.require ⟨".a", some ⟨"/main.t"⟩⟩
    let now := s.afterSteps [x]
    s.state.loading = [] ∧
      ∃ outer q u, now.setting.Within (now.Passes x) outer ⟨some q, u⟩ ∧
        Setting.Closes q u [".a@/main.t", ".b@/a.t", ".a@/b.t", ".b@/a.t"] := by
  intro disk s x now
  have hcause : (now.step x).1.failure?.map (·.cause) =
      some (.cycle [".a@/main.t", ".b@/a.t", ".a@/b.t", ".b@/a.t"]) := by
    decide +kernel
  obtain ⟨e, he, hkeys⟩ := Option.map_eq_some_iff.1 hcause
  exact ⟨rfl, (stack_discipline s rfl [x] x).2.2 e _ he hkeys⟩

end ScriptBuild.Session
