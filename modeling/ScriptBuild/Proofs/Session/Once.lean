import ScriptBuild.Machine.Plain
import ScriptBuild.Proofs.Session.Changes

/-!
# Modules are loaded once

A module in the cache stays there as it is through every step of a session, and a request for its
key is answered with it before anything else happens. Main statement: `cached_module_stays`.
-/

namespace ScriptBuild

/-- The module is the one that the cache has under its key. -/
def State.Holds (s : State) (m : CachedModule Value) : Prop :=
  s.cache.get? m.key = some m

namespace Setting

variable {setting : Setting} {s t : State} {m : CachedModule Value}

theorem Evolving.holds {α : Type} {x : Eval α} (hx : setting.Evolving x) (held : s.Holds m) :
    (x s).2.Holds m :=
  (hx s).get?_of_get? held

/-- A request for the key of a module in the cache is answered with it, and nothing changes. -/
theorem serve_of_holds {loader : Loader} {r : Request} (held : s.Holds m) (hkey : r.key = m.key) :
    setting.serve loader r s = (.ok m.value, s) := by
  have found : s.cache.get? r.key = some m := by
    rw [hkey]
    exact held
  exact (Serves.cached found).eq

theorem holds_register (held : s.Holds m) (locate : String → Option Path) (n : CachedModule Value)
    (specifier : String) : (setting.register locate n specifier s).2.Holds m := by
  rcases hkey : s.cache.get? n.key with _ | taken
  · rw [register_of_new hkey]
    exact Cache.get?_append held [n]
  · rw [register_of_taken hkey]
    exact held

/-- The bare loader takes no module out of the cache either. -/
theorem holds_requireBare (r : Request) (held : s.Holds m) :
    (setting.requireBare r s).2.Holds m := by
  have kept : ∀ {t : State}, t.cache = (s.push r.key).cache → t.pop.Holds m := by
    intro t ht
    show t.cache.get? m.key = some m
    rw [ht]
    exact held
  have h := @serves_serve setting .bare r s
  rw [requireBare]
  generalize setting.serve .bare r s = outcome at h
  cases h with
  | cached | cycle => exact held
  | failed _ _ load => exact kept (loadModule_bare load).2.1
  | loaded _ _ load => exact holds_register (kept (loadModule_bare load).2.1) _ _ _

end Setting

namespace Session

variable {m : CachedModule Value}

theorem holds_step {s : Session} (held : s.state.Holds m) (x : Step) :
    (s.step x).2.state.Holds m := by
  have h := changes_step s x
  generalize (s.step x).2.state = t at h
  cases h with
  | evolved body => exact body.get?_of_get? held
  | bare r => exact Setting.holds_requireBare r held
  | registered n specifier nextInstance =>
    have hstart : State.Holds { s.state with nextInstance } m := held
    exact Setting.holds_register hstart _ _ _
  | recorded | injected => exact held

theorem holds_afterSteps {s : Session} (held : s.state.Holds m) (xs : List Step) :
    (s.afterSteps xs).state.Holds m := by
  induction xs generalizing s with
  | nil => exact held
  | cons x xs ih => exact ih (holds_step held x)

/-- A module in the cache is there for good: no steps change it, whatever they are and however they
end. Every later request for its key is answered with that instance and changes nothing, be it a
step or nested in the scripts of one. -/
theorem cached_module_stays (s : Session) (m : CachedModule Value) (held : s.state.Holds m)
    (xs : List Step) :
    (s.afterSteps xs).state.Holds m ∧
    (∀ r : Request, r.key = m.key → ∀ x ∈ [Step.require r, Step.requireBare r],
      (s.afterSteps xs).step x = (.value (.ok m.value), s.afterSteps xs)) ∧
    (∀ (setting : Setting) (n : Nat) (r : Request) (t : State), t.Holds m →
      (setting.require n r t).2.Holds m ∧
      (r.key = m.key → setting.require (n + 1) r t = (.ok m.value, t))) ∧
    m.value.sameInstance m.value = true := by
  have hlater := holds_afterSteps held xs
  refine ⟨hlater, ?_, ?_, m.value.sameInstance_self⟩
  · intro r hkey x hx
    have hserve : ∀ loader, (s.afterSteps xs).perform Answer.value
        ((s.afterSteps xs).setting.serve loader r) = (.value (.ok m.value), s.afterSteps xs) := by
      intro loader
      rw [perform, Setting.serve_of_holds hlater hkey]
    rcases List.mem_cons.1 hx with rfl | hx
    · exact hserve _
    · rw [List.mem_singleton.1 hx]
      exact hserve _
  · intro setting n r t ht
    exact ⟨(setting.evolves_require n r).holds ht, Setting.serve_of_holds ht⟩

/-- A module that a step loaded is a table. It outlives a request that fails. -/
theorem cached_table_stays :
    let disk := FileSystem.ofEntries ⟨"/"⟩ [(⟨"/kept.t"⟩, .file (.text "return \x7b\x7d\n"))]
    let s : Session := ⟨.plain {}, ⟨disk, ⟨[], "t"⟩, Setting.defaultTemplates, .checked⟩, .empty⟩
    let kept : Request := ⟨"kept", none⟩
    let loaded := s.afterSteps [.require kept]
    let later := loaded.afterSteps [.require ⟨"gone", none⟩]
    ∃ m : CachedModule Value, loaded.state.Holds m ∧ m.key = kept.key ∧
      m.value.sameInstance (.table 0 []) = true ∧
      later.step (.require kept) = (.value (.ok m.value), later) := by
  intro disk s kept loaded later
  have hfound : (loaded.state.cache.get? kept.key).map
      (fun m => m.value.sameInstance (.table 0 [])) = some true := by
    decide +kernel
  obtain ⟨m, hm, hinstance⟩ := Option.map_eq_some_iff.1 hfound
  have hkey : m.key = kept.key := (Cache.mem_of_get? hm).2
  have held : loaded.state.Holds m := by
    rw [State.Holds, hkey]
    exact hm
  obtain ⟨_, answered, _⟩ := cached_module_stays loaded m held [.require ⟨"gone", none⟩]
  exact ⟨m, held, hkey, hinstance, answered kept hkey.symm _ List.mem_cons_self⟩

end Session

end ScriptBuild
