import ScriptBuild.Machine.Plain
import ScriptBuild.Proofs.Import.Ledger
import ScriptBuild.Session

/-!
# The records of a session

In a session that only runs scripts and asks for modules, each record of a file stands for one module
in the cache or for one reading of a header, and a module's own record comes after those that its
script caused. Main statement: `dependencies_accounted`.
-/

namespace ScriptBuild

namespace Setting

variable {setting : Setting} {n : Nat} {r : Request} {s t : State} {v : Value}

/-- The file of a new module is recorded after all that was recorded while the module was loaded. -/
inductive RecordsLast (setting : Setting) (n : Nat) (r : Request) (s : State) (v : Value)
    (t : State) : Prop where
  | resolved {file : Path} {u : State} (found : setting.resolved? r = some file)
      (body : setting.runFile (setting.require n) file
        ((s.push r.key).log (.entered ⟨file, r.specifier⟩)) = (.ok v, u))
      (before : s.dependencies <+: u.dependencies)
      (last : t.dependencies = u.dependencies ++ [file])
  | own {u : State} (missing : setting.resolved? r = none)
      (body : setting.ownModule (setting.require n) r.specifier (s.push r.key) =
        (.ok (.loaded v), u))
      (before : s.dependencies <+: u.dependencies)
      (last : t.dependencies = u.dependencies ++ (setting.templateFile? r.specifier).toList)

theorem recordsLast_of_require (fresh : s.cache.get? r.key = none)
    (h : setting.require (n + 1) r s = (.ok v, t)) : setting.RecordsLast n r s v t := by
  cases serves_iff.2 h with
  | cached found =>
    rw [fresh] at found
    cases found
  | @loaded _ source u _ _ load =>
    cases loads_iff.2 load with
    | @resolved file _ w found run =>
      have hbody : setting.Evolves (s.push r.key) w := (Evolves.entered _ found).trans
        ((Evolving.runFile (setting.evolves_require n) file).evolves run)
      refine .resolved found run hbody.dependencies_grow ?_
      rw [register_of_new (hbody.get?_of_push fresh)]
      exact List.append_nil _
    | own missing own =>
      have hbody := (Evolving.ownModule (setting.evolves_require n) r.specifier).evolves own
      refine .own missing own hbody.dependencies_grow ?_
      rw [register_of_new (hbody.get?_of_push fresh)]
      rfl

end Setting

namespace Session

/-- The step runs a script or asks the loader of the script language for a module. -/
def Step.isImport : Step → Bool
  | .require _ | .exec _ | .execFile _ => true
  | _ => false

theorem evolves_step {s : Session} {x : Step} (hx : x.isImport = true) :
    (s.step x).2.setting = s.setting ∧ s.setting.Evolves s.state (s.step x).2.state := by
  cases x with
  | require r => exact ⟨rfl, s.setting.evolves_requireModule r s.state⟩
  | exec source =>
    rw [step]
    split
    · exact ⟨rfl, s.setting.evolves_runChunk _ s.state⟩
    · exact ⟨rfl, .refl s.state⟩
  | execFile p =>
    exact ⟨rfl, (Setting.Evolving.load p).bind s.setting.evolves_runChunk s.state⟩
  | _ => cases hx

theorem evolves_afterSteps {s : Session} {xs : List Step} (hxs : ∀ x ∈ xs, x.isImport = true) :
    (s.afterSteps xs).setting = s.setting ∧
      s.setting.Evolves s.state (s.afterSteps xs).state := by
  induction xs generalizing s with
  | nil => exact ⟨rfl, .refl s.state⟩
  | cons x xs ih =>
    obtain ⟨hsetting, hfirst⟩ := evolves_step (s := s) (hxs x List.mem_cons_self)
    obtain ⟨hkept, hrest⟩ := ih (s := (s.step x).2) fun y hy => hxs y (List.mem_cons_of_mem _ hy)
    rw [hsetting] at hkept hrest
    exact ⟨hkept, hfirst.trans hrest⟩

/-- In every session that starts afresh and only runs scripts and asks for modules, a file is
recorded once for each module in the cache that the search directories led to it for, once for each
module of the runtime whose specifier the templates lead to it for, and once for each time it was
read by an import of constants; the cache holds what the history says was put into it, under
different keys. The record of a new module comes after all those made while it was loaded, in
whatever state it is asked for. -/
theorem dependencies_accounted (s : Session) (cFlags linkFlags : List String)
    (fresh : s.state = State.empty.inject cFlags linkFlags) (xs : List Step)
    (hxs : ∀ x ∈ xs, x.isImport = true) :
    let t := (s.afterSteps xs).state
    (∀ p, t.dependencies.count p =
      t.cache.countP (fun m => m.source = .resolved p) +
      t.cache.countP (fun m => m.source = .runtime ∧
        (t.specifierOf? m.key).bind s.setting.templateFile? = some p) +
      t.headerFiles.count p) ∧
    t.Coherent ∧
    ∀ n r v u w, u.cache.get? r.key = none →
      s.setting.require (n + 1) r u = (.ok v, w) → s.setting.RecordsLast n r u v w := by
  intro t
  obtain ⟨_, hevolves⟩ := evolves_afterSteps hxs (s := s)
  rw [fresh] at hevolves
  have hcoherent : t.Coherent := hevolves.coherent (State.coherent_empty cFlags linkFlags)
  refine ⟨fun p => ?_, hcoherent, fun n r v u w => Setting.recordsLast_of_require⟩
  have hbalance : t.dependencies.count p + 0 = 0 + s.setting.expected t p := hevolves.balanced p
  have hresolved := hcoherent.countP_cache fun x => x.2 = .resolved p
  have hruntime := hcoherent.countP_cache fun x => x.2 = .runtime ∧
    (t.specifierOf? x.1).bind s.setting.templateFile? = some p
  have hspecifier : t.registrations.countP (fun x => x.2.2 = .runtime ∧
        (t.specifierOf? x.1).bind s.setting.templateFile? = some p) =
      t.registrations.countP fun x =>
        x.2.2 = .runtime ∧ s.setting.templateFile? x.2.1 = some p := by
    refine List.countP_congr fun x hx => ?_
    rw [hcoherent.specifierOf?_eq hx, Option.bind_some]
  rw [hresolved, hruntime, hspecifier]
  rw [Nat.add_zero, Nat.zero_add] at hbalance
  exact hbalance

/-- A module that the templates lead to is recorded once, also when a request fails after it. -/
theorem template_module_accounted :
    let disk := FileSystem.ofEntries ⟨"/"⟩ [(⟨"/a.t"⟩, .file (.text "return 1\n"))]
    let s : Session := ⟨.plain {}, ⟨disk, ⟨[], "t"⟩, ["./?.t"], .checked⟩, State.empty.inject [] []⟩
    let xs := [Step.require ⟨"a", none⟩, .require ⟨"gone", none⟩, .exec "return require \"a\"\n"]
    let t := (s.afterSteps xs).state
    t.dependencies.count ⟨"/a.t"⟩ = 1 ∧
      t.dependencies.count ⟨"/a.t"⟩ = t.cache.countP (fun m => m.source = .resolved ⟨"/a.t"⟩) +
        t.cache.countP (fun m => m.source = .runtime ∧
          (t.specifierOf? m.key).bind s.setting.templateFile? = some ⟨"/a.t"⟩) +
        t.headerFiles.count ⟨"/a.t"⟩ := by
  intro disk s xs t
  have hxs : ∀ x ∈ xs, x.isImport = true := by
    simp [xs, Step.isImport]
  exact ⟨by decide +kernel, (dependencies_accounted s [] [] rfl xs hxs).1 ⟨"/a.t"⟩⟩

end Session

end ScriptBuild
