import ScriptBuild.Proofs.Import.Keys
import ScriptBuild.Proofs.Session.Records
import ScriptBuild.Proofs.Session.Stack

/-!
# Answers from the cache

A request is answered from the cache with the module that was loaded under its key. Main statements:
`answered_under_key` says for which request that module was loaded, and `other_module_answers` is a
session in which it is not the one that was asked for.
-/

namespace ScriptBuild.Session

/-- At the moments of a step that runs scripts, the state has changed as running scripts does. -/
theorem Passes.evolves {s : Session} {x : Step} {m : Moment} (hx : x.isImport = true)
    (h : s.Passes x m) : s.setting.Evolves s.state m.state := by
  cases h with
  | before | asked => exact .refl s.state
  | after => exact (evolves_step hx).2
  | ran _ inner => exact inner.evolves
  | ranFile inner => exact inner.evolves
  | looked => cases hx

/-- In every session that starts afresh and only runs scripts and asks for modules, a request whose
key is in the cache, be it a step or nested in the scripts of one, is answered with a module that
was loaded for a request with that key. Requests share a key if they ask for the same, or if the
specifier of one spells out what the key of the other one adds to its specifier; a specifier that
could be looked up in directories does not. Paths that are no texts are left out: two of them that are
shown alike would make one key too. -/
theorem answered_under_key (s : Session) (cFlags linkFlags : List String)
    (fresh : s.state = State.empty.inject cFlags linkFlags) (xs : List Step)
    (hxs : ∀ x ∈ xs, x.isImport = true) (x : Step) (hx : x.isImport = true) :
    let now := s.afterSteps xs
    (∀ outer q u m, now.setting.Within (now.Passes x) outer ⟨some q, u⟩ →
      u.cache.get? q.key = some m →
      now.setting.requireModule q u = (.ok m.value, u) ∧
      ∃ r : Request, r.key = q.key ∧ now.setting.Provides r u.history m.source ∧
        (r.Same q ∨ r.Shadows q ∨ q.Shadows r)) ∧
    (∀ r q : Request, r.key = q.key ↔ r.Same q ∨ r.Shadows q ∨ q.Shadows r) ∧
    ∀ r q : Request, Specifier.isPlain r.specifier = true → Specifier.isPlain q.specifier = true →
      (r.key = q.key ↔ r.Same q) := by
  intro now
  refine ⟨fun outer q u m hwithin found => ⟨?_, ?_⟩, fun r q => Request.key_eq_iff,
    fun r q => Request.key_eq_iff_of_plain⟩
  · rw [Setting.requireModule_eq]
    exact (Setting.Serves.cached found).eq
  · obtain ⟨hsetting, hevolves⟩ := evolves_afterSteps hxs (s := s)
    have hstart : s.setting.Sourced s.state := by
      rw [fresh]
      exact fun m hm => absurd hm List.not_mem_nil
    have hnow : now.setting.Sourced now.state := hsetting ▸ hevolves.sourced hstart
    have hmoment := hwithin.sourced fun m hm => (hm.evolves hx).sourced hnow
    obtain ⟨hmem, hkey⟩ := Cache.mem_of_get? found
    obtain ⟨r, hr, hprovides⟩ := hmoment m hmem
    rw [hkey] at hr
    exact ⟨r, hr, hprovides, Request.key_eq_iff.1 hr⟩

/-- A relative request that is repeated is answered with the module that was loaded for it. -/
theorem repeated_request_answered :
    let disk := FileSystem.ofEntries ⟨"/"⟩ [(⟨"/a.t"⟩, .file (.text "return 1\n"))]
    let s : Session := ⟨.plain {}, ⟨disk, ⟨[], "t"⟩, [], .checked⟩, State.empty.inject [] []⟩
    let q : Request := ⟨".a", some ⟨"/d/x.t"⟩⟩
    let now := s.afterSteps [.require q]
    ∃ m, now.state.cache.get? q.key = some m ∧
      now.setting.requireModule q now.state = (.ok m.value, now.state) := by
  intro disk s q now
  have hxs : ∀ x ∈ [Step.require q], x.isImport = true := by
    simp [Step.isImport]
  have hsome : (now.state.cache.get? q.key).isSome = true := by decide +kernel
  obtain ⟨m, found⟩ := Option.isSome_iff_exists.1 hsome
  have hanswer := (answered_under_key s [] [] rfl _ hxs (.require q) rfl).1
  exact ⟨m, found, (hanswer [] q now.state m (.direct (.asked q)) found).1⟩

/-- A specifier that spells out the key of an earlier request is answered with the module of that
one, a relative one of another file. In a fresh session nothing is found for it. -/
theorem other_module_answers :
    let disk := FileSystem.ofEntries ⟨"/"⟩
      [(⟨"/d/x.t"⟩, .file (.text "")), (⟨"/a.t"⟩, .file (.text "return 1\n"))]
    let s : Session := ⟨.plain {}, ⟨disk, ⟨[], "t"⟩, Setting.defaultTemplates, .checked⟩, State.empty⟩
    let r : Request := ⟨".a", some ⟨"/d/x.t"⟩⟩
    let q : Request := ⟨".a@/d/x.t", none⟩
    r.key = q.key ∧ r.specifier ≠ q.specifier ∧
      (∃ v, ((s.afterSteps [.require r]).step (.require q)).1 = .value (.ok v) ∧
        v.sameInstance (.int 1) = true) ∧
      ∃ e, (s.step (.require q)).1.failure? = some e := by
  intro disk s r q
  have hanswer : (match ((s.afterSteps [.require r]).step (.require q)).1 with
      | .value (.ok v) => v.sameInstance (.int 1)
      | _ => false) = true := by decide +kernel
  have hfailure : (s.step (.require q)).1.failure?.isSome = true := by decide +kernel
  refine ⟨by decide, by decide, ?_, Option.isSome_iff_exists.1 hfailure⟩
  generalize ((s.afterSteps [.require r]).step (.require q)).1 = answer at hanswer
  split at hanswer
  · exact ⟨_, rfl, hanswer⟩
  · cases hanswer

end ScriptBuild.Session
