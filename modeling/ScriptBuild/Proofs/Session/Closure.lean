import ScriptBuild.FileSystem.Build
import ScriptBuild.Proofs.Import.Closure
import ScriptBuild.Proofs.Session.Changes
import ScriptBuild.Proofs.Session.Records

/-!
# The imports of the modules in the cache of a session

Between the steps of a session, also after steps that failed, whatever the script of a module in the
cache asks for is in the cache too, and was put there before it. Main statement: `cache_closed`.
-/

namespace ScriptBuild

namespace Setting

variable {setting : Setting} {s : State}

/-- The key of a module that is built in is its name. -/
theorem key_of_builtin {r : Request} {module : Eval Value}
    (h : builtinModule? r.specifier = some module) : r.key = r.specifier := by
  refine Request.key_of_qualified ?_
  unfold builtinModule? at h
  split at h
  · next hname =>
    rw [hname]
    decide
  · split at h
    · next hname =>
      rw [hname]
      decide
    · cases h

/-- A module in a closed cache is backed by those before it. -/
theorem Closed.backed_cache (hs : setting.Closed s) {before after : Cache Value}
    {m : CachedModule Value} (h : s.cache = before ++ m :: after) :
    ∃ specifier, s.specifierOf? m.key = some specifier ∧
      (builtinModule? m.key = none → builtinModule? specifier = none) ∧
      setting.Backed (before.map (·.key)) specifier m.source := by
  have hlisted := hs.coherent.listed
  rw [h, List.map_append, List.map_cons] at hlisted
  obtain ⟨listed, rest, heq, hbefore, hrest⟩ := List.map_eq_append_iff.1 hlisted.symm
  obtain ⟨x, more, rfl, hx, _⟩ := List.map_eq_cons_iff.1 hrest
  obtain ⟨hkey, hsource⟩ := Prod.mk.inj hx
  have hmem : x ∈ s.registrations := heq ▸ List.mem_append_right _ List.mem_cons_self
  have hkeys : listed.map Prod.fst = before.map (·.key) := by
    have := congrArg (List.map Prod.fst) hbefore
    rwa [List.map_map, List.map_map] at this
  have hbacked := hs.backed listed x more heq
  obtain ⟨origin, hasked⟩ := hs.asked x hmem
  rw [hkeys, hsource] at hbacked
  refine ⟨x.2.1, ?_, fun hforeign => ?_, hbacked⟩
  · rw [← hkey]
    exact hs.coherent.specifierOf?_eq hmem
  · cases hbuiltin : builtinModule? x.2.1 with
    | none => rfl
    | some module =>
      rw [← hkey, hasked, key_of_builtin (r := ⟨x.2.1, origin⟩) hbuiltin, hbuiltin] at hforeign
      cases hforeign

end Setting

namespace Session

/-- The step puts a module into the cache past the loader of the script language. -/
def Step.isDirect : Step → Bool
  | .requireBare _ | .register .. => true
  | _ => false

theorem closed_step {s : Session} {x : Step} (hx : x.isDirect = false)
    (hs : s.setting.Closed s.state) : s.setting.Closed (s.step x).2.state := by
  have hserve (n : Nat) := Setting.Keeping.require s.setting n
  have hchange := Setting.Keeping.change s.setting
  cases x with
  | require r => exact hserve _ r s.state hs
  | requireBare | register => cases hx
  | exec source =>
    rw [step]
    split
    · exact hchange.execute (hserve _) _ s.state hs
    · exact hs
  | execFile p =>
    exact hchange.bind (hchange.load p) (fun c => hchange.execute (hserve _) c) s.state hs
  | load p => exact hchange.load p s.state hs
  | importOwn specifier => exact hchange.ownModule (hserve _) specifier s.state hs
  | record | inject => exact hs.congr rfl rfl
  | save output => exact (s.save_state output).symm ▸ hs
  | emit depfile target root => exact (s.emit_state depfile target root).symm ▸ hs
  | searchPath | cached | exports | exportValue | write | remove => exact hs

theorem closed_afterSteps {s : Session} {xs : List Step} (hs : s.setting.Closed s.state)
    (served : ∀ x ∈ xs, x.isDirect = false)
    (still : ∀ ys, ys <+: xs → (s.afterSteps ys).setting = s.setting) :
    s.setting.Closed (s.afterSteps xs).state := by
  induction xs generalizing s with
  | nil => exact hs
  | cons x xs ih =>
    have hsetting : (s.step x).2.setting = s.setting := still [x] (by simp)
    have hstep := closed_step (served x List.mem_cons_self) hs
    rw [← hsetting] at hstep ⊢
    refine ih hstep (fun y hy => served y (List.mem_cons_of_mem _ hy)) fun ys hys => ?_
    exact (still (x :: ys) (List.cons_prefix_cons.2 ⟨rfl, hys⟩)).trans hsetting.symm

/-- In every session that starts afresh, leaves its files alone and puts modules into the cache only
by the loader of the script language, the cache lists its modules in the order in which they were
put there. Whatever a script asks for whose file the search directories led to, anywhere in its
text, was put there before it. The same holds of the script of each module of the runtime that is
not built in; it asks with the path that the template makes. No chain of such imports comes back to
where it began. -/
theorem cache_closed (s : Session) (cFlags linkFlags : List String)
    (fresh : s.state = State.empty.inject cFlags linkFlags) (xs : List Step)
    (served : ∀ x ∈ xs, x.isDirect = false)
    (still : ∀ ys, ys <+: xs → (s.afterSteps ys).setting = s.setting) :
    let t := (s.afterSteps xs).state
    t.cache.map (·.key) = t.registrations.map Prod.fst ∧
    (∀ before m after, t.cache = before ++ m :: after →
      (∀ p, m.source = .resolved p → ∃ c, s.setting.Reads p c ∧
        ∀ spec ∈ c.requests, Request.key ⟨spec, some p⟩ ∈ before.map (·.key)) ∧
      (m.source = .runtime → Setting.builtinModule? m.key = none → ∃ specifier p c,
        t.specifierOf? m.key = some specifier ∧ s.setting.searchPath specifier = some p ∧
        s.setting.Reads p c ∧
        ∀ spec ∈ c.requests, Request.key ⟨spec, some p⟩ ∈ before.map (·.key))) ∧
    ∀ key, ¬ Relation.TransGen (s.setting.Imports t) key key := by
  intro t
  have hempty : s.setting.Closed s.state := by
    rw [fresh]
    refine ⟨State.coherent_empty cFlags linkFlags, fun x hx => ?_, fun before x after h => ?_⟩
    · cases hx
    · exact absurd h (by simp [State.registrations, State.empty, State.inject])
  have hclosed : s.setting.Closed t := closed_afterSteps hempty served still
  refine ⟨hclosed.keys_eq, fun before m after h => ?_, hclosed.acyclic⟩
  obtain ⟨specifier, hspecifier, hforeign, hbacked⟩ := hclosed.backed_cache h
  refine ⟨fun p hp => ?_, fun hruntime hkey => ?_⟩
  · rw [hp] at hbacked
    cases hbacked with
    | script script text imports =>
      cases script
      exact ⟨_, text, imports⟩
  · rw [hruntime] at hbacked
    cases hbacked with
    | builtIn builtin =>
      rw [hforeign hkey] at builtin
      cases builtin
    | script script text imports =>
      cases script with
      | hosted _ searched => exact ⟨specifier, _, _, hspecifier, searched, text, imports⟩

/-- A module stays in the cache, with its imports before it, when the script that asked for it
fails. -/
theorem nested_import_before :
    let disk := FileSystem.ofEntries ⟨"/"⟩
      [(⟨"/lib/a.t"⟩, .file (.text "return assign(require \"b\", require \"platform\")\n")),
        (⟨"/lib/b.t"⟩, .file (.text "return require \"platform\"\n")),
        (⟨"/lib/c.t"⟩, .file (.text "return assign(require \"a\", require \"gone\")\n"))]
    let s : Session := ⟨.plain {}, ⟨disk, ⟨[⟨"/lib"⟩], "t"⟩, [], .checked⟩, State.empty.inject [] []⟩
    let xs := [Step.require ⟨"c", some ⟨"/main.t"⟩⟩, .require ⟨"a", some ⟨"/main.t"⟩⟩]
    (∀ x ∈ xs, x.isDirect = false) ∧ (∀ ys, ys <+: xs → (s.afterSteps ys).setting = s.setting) ∧
      ∃ before m after, (s.afterSteps xs).state.cache = before ++ m :: after ∧ m.key = "a" ∧
        "b" ∈ before.map (·.key) ∧ "platform" ∈ before.map (·.key) := by
  intro disk s xs
  have served : ∀ x ∈ xs, x.isDirect = false := by
    simp [xs, Step.isDirect]
  have still : ∀ ys, ys <+: xs → (s.afterSteps ys).setting = s.setting := fun ys hys =>
    (evolves_afterSteps fun x hx => (by simp [xs, Step.isImport] : ∀ x ∈ xs, x.isImport = true) x
      (hys.subset hx)).1
  have hcached : (s.afterSteps xs).state.cache.map (fun m => (m.key, m.source)) =
      [("platform", .runtime), ("b", .resolved ⟨"/lib/b.t"⟩), ("a", .resolved ⟨"/lib/a.t"⟩)] := by
    decide +kernel
  obtain ⟨before, rest, hcache, _, hrest⟩ := List.map_eq_append_iff.1
    (hcached.trans (List.append_cons [_] _ _))
  obtain ⟨a, rest', rfl, ha, _⟩ := List.map_eq_cons_iff.1 hrest
  obtain ⟨hkey, hsource⟩ := Prod.mk.inj ha
  refine ⟨served, still, before, a, rest', hcache, hkey, ?_⟩
  obtain ⟨c, ⟨loc, source, hread, hchunk⟩, imports⟩ :=
    ((cache_closed s [] [] rfl xs served still).2.1 before a rest' hcache).1 ⟨"/lib/a.t"⟩ hsource
  have htext : (disk.readFile ⟨"/lib/a.t"⟩).toOption.map Prod.snd =
      some "return assign(require \"b\", require \"platform\")\n" := by
    decide +kernel
  have hrequests : (Script.Chunk.ofText "return assign(require \"b\", require \"platform\")\n"
      (some ⟨"/lib/a.t"⟩)).toOption.map (·.requests) = some ["b", "platform"] := by
    decide +kernel
  change disk.readFile _ = _ at hread
  rw [hread] at htext
  cases Option.some.inj htext
  rw [hchunk] at hrequests
  have hasked : c.requests = ["b", "platform"] := Option.some.inj hrequests
  exact ⟨imports "b" (by simp [hasked]), imports "platform" (by simp [hasked])⟩

end Session

end ScriptBuild
