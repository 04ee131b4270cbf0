import Mathlib.Data.List.Chain
import Mathlib.Data.List.Nodup
import ScriptBuild.Proofs.Import.Causes

/-!
# The stack of keys being loaded

A load puts its key on the stack and takes it off again. Main statements: `Within.stack` says what
is on the stack inside of nested loads, `disciplined` what serving a request does to it, and
`exists_closes_of_blame` that an error about a cycle comes from a request for a key that was on it.
-/

namespace ScriptBuild

/-- No key is being loaded twice, and none that is in the cache. -/
structure State.Orderly (s : State) : Prop where
  nodup : s.loading.Nodup
  fresh : ∀ key ∈ s.loading, s.cache.get? key = none

theorem State.orderly_of_idle {s : State} (idle : s.loading = []) : s.Orderly where
  nodup := by
    rw [idle]
    exact List.nodup_nil
  fresh key hkey := by
    rw [idle] at hkey
    cases hkey

theorem State.Orderly.push {s : State} {key : String} (h : s.Orderly)
    (fresh : s.cache.get? key = none) (free : key ∉ s.loading) : (s.push key).Orderly where
  nodup := List.nodup_append.2 ⟨h.nodup, List.nodup_singleton key, fun a ha b hb => by
    rw [List.mem_singleton.1 hb]
    rintro rfl
    exact free ha⟩
  fresh other hother := by
    rcases List.mem_append.1 hother with hbefore | hlast
    · exact h.fresh other hbefore
    · rw [List.mem_singleton.1 hlast]
      exact fresh

theorem State.Steady.orderly {s t : State} (h : s.Steady t) (hs : s.Orderly) : t.Orderly where
  nodup := h.loading_eq ▸ hs.nodup
  fresh key hkey := by
    rw [h.loading_eq] at hkey
    exact h.fresh key hkey (hs.fresh key hkey)

namespace Setting

variable {setting : Setting} {r q : Request} {s t u : State} {m : Moment} {keys : List String}

/-- The second request is made at some moment while the module of the first one is being loaded. -/
def Asks (setting : Setting) (a b : Request) : Prop :=
  ∃ s t, setting.Nests (a, s) (b, t)

/-- Inside of nested loads, the stack holds their keys, each of them once and none that is in the
cache. -/
theorem Within.stack {top : Moment → Prop} {base : List String}
    (htop : ∀ m, top m → m.state.loading = base ∧ m.state.Orderly) {outer : List Request}
    (h : setting.Within top outer m) :
    m.state.loading = base ++ outer.map Request.key ∧ m.state.Orderly := by
  induction h with
  | direct passed =>
    obtain ⟨hloading, horderly⟩ := htop _ passed
    exact ⟨by rw [hloading, List.map_nil, List.append_nil], horderly⟩
  | @nested outer r s m _ during ih =>
    obtain ⟨hloading, horderly⟩ := ih
    have hsteady := during.passes.steady
    refine ⟨?_, hsteady.orderly (horderly.push during.fresh during.free)⟩
    rw [hsteady.loading_eq, List.map_append, ← List.append_assoc]
    exact congrArg (· ++ [r.key]) hloading

/-- Each of the nested loads was asked for during the one around it. -/
theorem Within.chain {top : Moment → Prop} {outer : List Request}
    (h : setting.Within top outer m) (hr : m.request = some r) :
    List.IsChain setting.Asks (outer ++ [r]) := by
  induction h generalizing r with
  | direct => exact .singleton r
  | @nested outer q s m _ during ih =>
    refine List.isChain_append.2 ⟨ih rfl, .singleton r, fun a ha b hb => ?_⟩
    rw [List.getLast?_concat, Option.mem_some_iff] at ha
    obtain ⟨request, t⟩ := m
    cases hr
    cases ha
    cases hb
    exact ⟨s, t, during⟩

/-- The request is for a key that is being loaded, and the list is the cycle that it closes. -/
structure Closes (q : Request) (u : State) (keys : List String) : Prop where
  fresh : u.cache.get? q.key = none
  busy : q.key ∈ u.loading
  keys_eq : keys = u.loading ++ [q.key]

/-- An error about a cycle is made by a request that closes it. -/
theorem closes_of_creates (h : setting.Creates q u (.cycle keys)) : Closes q u keys := by
  generalize hcause : ErrorCause.cycle keys = cause at h
  cases h with
  | cycle fresh busy => exact ⟨fresh, busy, ErrorCause.cycle.inj hcause⟩
  | unresolved => cases hcause

/-- An error about a cycle comes from a request for a key that was being loaded, however deep inside
of the request that fails. -/
theorem exists_closes_of_requireModule {e : ModuleError}
    (h : setting.requireModule r s = (.error (.failed e), t)) (hcause : e.cause = .cycle keys) :
    ∃ outer q u, setting.Within (Asking r s) outer ⟨some q, u⟩ ∧ Closes q u keys := by
  obtain ⟨outer, q, u, hwithin, hcreates⟩ :=
    exists_creates_of_requireModule h (hcause ▸ trivial)
  rw [hcause] at hcreates
  exact ⟨outer, q, u, hwithin, closes_of_creates hcreates⟩

/-- An error about a cycle that comes out of moments comes from a request inside of them. -/
theorem exists_closes_of_blame {top : Moment → Prop}
    (h : Blame setting.requireModule top (.cycle keys)) :
    ∃ outer q u, setting.Within top outer ⟨some q, u⟩ ∧ Closes q u keys := by
  obtain ⟨outer, q, u, hwithin, hcreates⟩ := exists_creates_of_blame h trivial
  exact ⟨outer, q, u, hwithin, closes_of_creates hcreates⟩

/-- What serving a request does to the stack and to the key of the request. -/
structure Disciplined (setting : Setting) (r : Request) (s : State) : Prop where
  /-- The stack is left as it was found. -/
  restored : (setting.requireModule r s).2.loading = s.loading
  /-- A request that fails leaves its key out of the cache. -/
  left_out : ∀ e t, setting.requireModule r s = (.error e, t) → t.cache.get? r.key = none
  /-- A module that was loaded is put into the cache under its key. -/
  registered : ∀ v t, s.cache.get? r.key = none → setting.requireModule r s = (.ok v, t) →
    ∃ source u, setting.loadModule (setting.loader setting.requireModule) r (s.push r.key) =
        (.ok (v, source), u) ∧
      setting.register setting.searchPath ⟨r.key, v, source⟩ r.specifier u.pop = (.ok true, t)
  /-- A request for a key that is being loaded fails with the cycle that it closes. -/
  closes : ∀ keys, Closes r s keys →
    setting.requireModule r s = (.error (.failed (.cycle keys)), s)
  /-- No other requests are the origin of an error about a cycle. -/
  closed : ∀ e t keys, setting.requireModule r s = (.error (.failed e), t) →
    e.cause = .cycle keys →
    ∃ inner q u, setting.Within (Asking r s) inner ⟨some q, u⟩ ∧ Closes q u keys

/-- Every request is served so, in whatever state. -/
theorem disciplined (setting : Setting) (r : Request) (s : State) : setting.Disciplined r s where
  restored := (setting.evolves_requireModule r s).loading_eq
  left_out e t h := by
    rw [requireModule_eq] at h
    cases serves_iff.2 h with
    | cycle fresh _ => exact fresh
    | failed fresh _ load =>
      exact (Evolving.loadModule_error setting.evolves_requireModule load).get?_of_push fresh
  registered v t fresh h := by
    rw [requireModule_eq] at h
    cases serves_iff.2 h with
    | cached found =>
      rw [fresh] at found
      cases found
    | @loaded _ source u _ _ load =>
      refine ⟨source, u, load, ?_⟩
      have hended : setting.LoadPasses r (s.push r.key) ⟨none, _⟩ := .ended
      rw [load] at hended
      have hnew : u.pop.cache.get? (CachedModule.mk r.key v source).key = none :=
        hended.steady.fresh r.key (s.mem_push r.key) fresh
      show setting.register setting.searchPath ⟨r.key, v, source⟩ r.specifier u.pop =
        (.ok true, (setting.register setting.searchPath ⟨r.key, v, source⟩ r.specifier u.pop).2)
      rw [register_of_new hnew]
  closes keys h := by
    rw [requireModule_eq, h.keys_eq]
    exact (Serves.cycle h.fresh h.busy).eq
  closed _ _ _ := exists_closes_of_requireModule

end Setting

end ScriptBuild
