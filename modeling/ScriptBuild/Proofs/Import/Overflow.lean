import ScriptBuild.Proofs.Evaluation.Include
import ScriptBuild.Proofs.Header.Negation
import ScriptBuild.Proofs.Import.Running
import ScriptBuild.Proofs.Import.Serving

/-!
# Scripts that overflow

The only integers that scripts negate in vain are those of the headers that they import. Main
statements: `checked_of_requireModule` and `checked_of_runChunk`, that requests and chunks overflow
in checked arithmetic alone.
-/

namespace ScriptBuild

open Script (Builtin Chunk)

/-- An import of constants overflows in checked arithmetic alone. -/
theorem Frame.checked_of_scan {f : Frame} {function : Builtin} {directories : List Path}
    {target : String} (h : f.scan function directories target = .error .overflow) :
    f.setting.arithmetic = .checked := by
  have hchecked (start : Header.Start)
      (hstart : start.scan f.setting.arithmetic f.setting.disk directories = .error .overflow) :
      f.setting.arithmetic = .checked := (Header.exists_negation_of_scan hstart).1
  unfold Frame.scan at h
  dsimp only at h
  split at h
  · exact hchecked (.text target f.directory) h
  · split at h
    · cases h
    · next path _ => exact hchecked (.file path) h

namespace Setting

/-- The computation overflows in checked arithmetic alone. -/
def Safe (setting : Setting) ⦃α : Type⦄ (x : Eval α) : Prop :=
  ∀ s t, x s = (.error .overflow, t) → setting.arithmetic = .checked

namespace Safe

variable {setting : Setting} {serve : Request → Eval Value}

theorem bind {α β : Type} {x : Eval α} {g : α → Eval β} (hx : setting.Safe x)
    (hg : ∀ a, setting.Safe (g a)) : setting.Safe (x >>= g) := by
  intro s t h
  rcases Eval.bind_eq_error.1 h with h | ⟨a, u, _, h⟩
  · exact hx s t h
  · exact hg a u t h

theorem mapError {α : Type} {x : Eval α} (hx : setting.Safe x) (g : ModuleError → ModuleError) :
    setting.Safe (x.mapError g) := by
  intro s t h
  have final : Stop.Final .overflow := trivial
  exact hx s t ((Eval.mapError_eq_of_final final).1 h)

/-- What is put together of computations that overflow in checked arithmetic alone does so too. -/
theorem congruence (setting : Setting) : Eval.Congruence fun _ x _ => setting.Safe x where
  value _ _ _ h := by cases h
  failure _ _ _ _ h := by cases h
  state _ _ h := by cases h
  counted _ _ h := by cases h
  exported _ _ _ _ h := by cases h
  linked _ _ _ h := by cases h
  sequence hx hg := hx.bind hg
  relocated _ _ _ hx := hx.mapError _

theorem importConstants {f : Frame} (hf : f.setting = setting) (function : Builtin)
    (directories : List Path) (target : String) :
    setting.Safe (f.importConstants function directories target) := by
  intro s t h
  rcases hscan : f.scan function directories target with (e | _) | scan
  · rw [Frame.importConstants_of_error hscan] at h
    cases h
  · exact hf ▸ Frame.checked_of_scan hscan
  · rw [Frame.importConstants_of_scan hscan] at h
    cases h

theorem execute (hserve : ∀ r, setting.Safe (serve r)) (c : Chunk) :
    setting.Safe (setting.execute serve c) :=
  @Eval.Congruence.execute _ (congruence setting) setting setting serve serve c
    (fun _ hf function directories target => importConstants hf function directories target)
    fun specifier _ => hserve ⟨specifier, c.origin⟩

theorem runFile (hserve : ∀ r, setting.Safe (serve r)) (p : Path) :
    setting.Safe (setting.runFile serve p) := by
  refine bind (fun s t h => ?_) fun c => execute hserve c
  rcases hread : setting.disk.readFile p with cause | ⟨loc, source⟩
  · rw [load_of_error hread] at h
    cases h
  · rw [load_of_text hread] at h
    split at h <;> cases h

theorem loadModule (hserve : ∀ r, setting.Safe (serve r)) (r : Request) :
    setting.Safe (setting.loadModule (setting.loader serve) r) := by
  intro s t h
  cases loads_iff.2 h with
  | resolvedStopped _ run => exact runFile hserve _ _ t run
  | ownFailed _ own =>
    exact @Eval.Congruence.ownModule _ (congruence setting) setting serve serve r.specifier
      (runFile hserve) s t own

theorem serving (hserve : ∀ r, setting.Safe (serve r)) (r : Request) :
    setting.Safe (setting.serve (setting.loader serve) r) := by
  intro s t h
  cases serves_iff.2 h with
  | failed _ _ load => exact loadModule hserve r _ _ load

end Safe

variable {setting : Setting} {s t : State}

theorem safe_require (setting : Setting) (n : Nat) (r : Request) :
    setting.Safe (setting.require n r) := by
  induction n generalizing r with
  | zero => exact fun s t h => by cases h
  | succ n ih => exact Safe.serving ih r

/-- Requests overflow in checked arithmetic alone. -/
theorem checked_of_requireModule {r : Request}
    (h : setting.requireModule r s = (.error .overflow, t)) : setting.arithmetic = .checked :=
  setting.safe_require _ r s t h

/-- Chunks overflow in checked arithmetic alone. -/
theorem checked_of_runChunk {c : Chunk} (h : setting.runChunk c s = (.error .overflow, t)) :
    setting.arithmetic = .checked :=
  Safe.execute (setting.safe_require _) c s t h

end Setting

end ScriptBuild
