import ScriptBuild.Proofs.Artifact.Saving
import ScriptBuild.Proofs.Build.Effects
import ScriptBuild.Proofs.Build.Run
import ScriptBuild.Proofs.Import.Exported
import ScriptBuild.Proofs.Session.Stack

/-!
# The exports of a session

In every state of a session, between its steps and inside of them, the table of exports tells what
was exported until then, by scripts that came to their end and by scripts that failed. Main statement:
`exports_tell`. No name stands twice in the table, so an object is never refused for its symbols.
-/

namespace ScriptBuild

open Script (Chunk)

namespace Session

/-- The exports that a step executes. -/
def exportedBy (s : Session) : Step → List (String × Value)
  | .require r => s.setting.requestExports r s.state
  | .exec source =>
    match Chunk.ofText source none with
    | .ok c => s.setting.exportsOf (s.setting.chunkDoings c s.state)
    | .error _ => []
  | .execFile p => s.setting.exportsOf (s.setting.fileDoings p s.state)
  | .importOwn specifier => s.setting.exportsOf (s.setting.ownDoings specifier s.state)
  | _ => []

/-- The exports that steps execute, one after the other. -/
def executed (s : Session) : List Step → List (String × Value)
  | [] => []
  | x :: xs => s.exportedBy x ++ (s.step x).2.executed xs

theorem executed_append (s : Session) (xs ys : List Step) :
    s.executed (xs ++ ys) = s.executed xs ++ (s.afterSteps xs).executed ys := by
  induction xs generalizing s with
  | nil => rfl
  | cons x xs ih =>
    rw [List.cons_append, executed, executed, ih, List.append_assoc]
    rfl

theorem becomes_step (s : Session) (x : Step) :
    s.state.exports.Becomes (s.exportedBy x) (s.step x).2.state.exports := by
  have kept {t : State} (h : t.exports = s.state.exports) : s.state.exports.Becomes [] t.exports :=
    h ▸ .nil _
  cases x with
  | require r => exact s.setting.requireModule_exports r s.state
  | requireBare r => exact kept (s.setting.requireBare_keeps r s.state).2
  | exec source =>
    rw [step, exportedBy]
    cases Chunk.ofText source none with
    | error e => exact .nil _
    | ok c =>
      have hrun : (s.setting.runChunk c).Does s.setting.requestExports s.state
          (s.setting.chunkDoings c s.state) := by
        rw [Setting.runChunk_eq]
        exact Setting.does_execute fun q t _ => s.setting.requireModule_exports q t
      exact hrun
  | execFile p =>
    have hrun : (s.setting.load p >>= s.setting.runChunk).Does s.setting.requestExports s.state
        (s.setting.fileDoings p s.state) := by
      rw [funext s.setting.runChunk_eq]
      exact Setting.does_runFile fun q t _ => s.setting.requireModule_exports q t
    exact hrun
  | load p => exact (s.setting.keepsExports_load p).becomes s.state
  | importOwn specifier =>
    have hown : (s.setting.importOwn specifier).Does s.setting.requestExports s.state
        (s.setting.ownDoings specifier s.state) := by
      rw [Setting.importOwn_eq]
      exact Setting.does_ownModule fun q t _ => s.setting.requireModule_exports q t
    exact hown
  | register key specifier value source =>
    have hstate := congrArg State.exports (s.register_state key specifier value source)
    exact kept (hstate.trans (Setting.register_keeps _ _ _ _).2)
  | save output => exact kept (congrArg State.exports (s.save_state output))
  | emit depfile target root => exact kept (congrArg State.exports (s.emit_state depfile target root))
  | searchPath | cached | record | inject | exports | exportValue | write | remove => exact .nil _

theorem becomes_afterSteps (s : Session) (xs : List Step) :
    s.state.exports.Becomes (s.executed xs) (s.afterSteps xs).state.exports := by
  induction xs generalizing s with
  | nil => exact .nil _
  | cons x xs ih => exact (becomes_step s x).append (ih _)

/-- At the moments of a step, a part of what it exports was exported. -/
theorem Passes.among {s : Session} {x : Step} {m : Moment} (h : s.Passes x m) :
    m.Among s.setting.requestExports s.state (s.exportedBy x) := by
  cases h with
  | before => exact Moment.among_start _ _ _
  | after => exact Moment.among_end (becomes_step s x)
  | asked r => exact ⟨[], List.prefix_rfl, .nil _⟩
  | ran chunk inner =>
    rw [exportedBy, chunk]
    exact inner.among
  | ranFile inner => exact inner.among
  | looked inner => exact inner.among

theorem named_exportedBy (s : Session) (x : Step) : Exports.Named (s.exportedBy x) := by
  cases x with
  | require r => exact s.setting.named_requestExports r s.state
  | exec source =>
    rw [exportedBy]
    split
    · next hchunk =>
      exact Setting.named_exportsOf fun _ _ => Setting.isName_of_mem_chunkDoings hchunk
    · exact Exports.named_nil
  | execFile p => exact Setting.named_exportsOf fun _ _ => Setting.isName_of_mem_fileDoings
  | importOwn specifier => exact Setting.named_exportsOf fun _ _ => Setting.isName_of_mem_ownDoings
  | requireBare | load | searchPath | register | cached | record | inject | exports | exportValue
    | save | emit | write | remove => exact Exports.named_nil

theorem named_executed (s : Session) (xs : List Step) : Exports.Named (s.executed xs) := by
  induction xs generalizing s with
  | nil => exact Exports.named_nil
  | cons x xs ih => exact (s.named_exportedBy x).append (ih _)

/-- After steps the table tells also what they exported. -/
theorem tells_afterSteps {s : Session} {before : List (String × Value)}
    (told : s.state.exports.Tells before) (xs : List Step) :
    (s.afterSteps xs).state.exports.Tells (before ++ s.executed xs) :=
  told.becomes (s.becomes_afterSteps xs)

end Session

namespace Artifact

/-- Symbols with names that a script can spell are refused only if a name is repeated. -/
def RefusesRepeats (refuse : Exports → Option ArtifactError) : Prop :=
  ∀ es e, (∀ name ∈ es.names, Script.isName name = true) → refuse es = some e → ¬ es.names.Nodup

end Artifact

namespace ObjectModule

variable {M : ObjectModule} {name : String} {optimize : Bool}

/-- The fault that a library finds with symbols. -/
def symbolsError? (M : ObjectModule) (name : String) (optimize : Bool) (exports : Exports) :
    Option ArtifactError :=
  match M.emit name exports optimize with
  | .error e => if e.OfSymbols then some (.object e) else none
  | .ok _ => none

theorem symbolsError?_eq_some {exports : Exports} {e : ArtifactError} :
    M.symbolsError? name optimize exports = some e ↔
      ∃ fault, M.emit name exports optimize = .error fault ∧ fault.OfSymbols ∧ e = .object fault := by
  unfold symbolsError?
  cases M.emit name exports optimize with
  | ok object => simp
  | error fault =>
    by_cases hfault : fault.OfSymbols
    · simp [hfault, eq_comm]
    · simp [hfault]

/-- A library with a table of names refuses repeated ones only. -/
theorem NameTable.refusesRepeats (N : M.NameTable) (name : String) (optimize : Bool) :
    Artifact.RefusesRepeats (M.symbolsError? name optimize) := by
  intro exports e named hrefused hdistinct
  have hidentifiers : ∀ x ∈ exports.names, Script.isIdentifier x.toList = true := by
    intro x hx
    have hname := named x hx
    rw [Script.isName, Bool.and_eq_true] at hname
    exact hname.1
  have hnone : repeated? [] exports = none :=
    (@repeated?_eq_none_iff [] exports List.nodup_nil).2 hdistinct
  obtain ⟨object, hobject⟩ := (N.emit_eq name hidentifiers optimize).2 hnone
  obtain ⟨fault, hfault, _⟩ := symbolsError?_eq_some.1 hrefused
  rw [hobject] at hfault
  cases hfault

end ObjectModule

namespace Build

open Session (Step)

variable {m : Machine} {disk : FileSystem} {c : Configuration} {templates : List String}

/-- The script of a run is run as in a session. -/
theorem exists_afterSteps_runScript (m : Machine) (setting : Setting) (c : Configuration)
    (start : State) : ∃ xs, (runScript setting c start).2 =
      (Session.afterSteps ⟨m, setting, start⟩ xs).state := by
  rcases hentry : setting.disk.canonicalize c.filename with cause | entry
  · refine ⟨[], ?_⟩
    rw [runScript, hentry]
    rfl
  · refine ⟨[.execFile entry], ?_⟩
    rw [runScript, hentry]
    rfl

/-- A run leaves the state of a session that began with nothing exported. -/
theorem exists_session (m : Machine) (disk : FileSystem) (c : Configuration)
    (templates : List String) : ∃ (s : Session) (xs : List Step), s.state.exports = [] ∧
      (c.build m disk templates).state = (s.afterSteps xs).state := by
  unfold Configuration.build
  split
  · exact ⟨⟨m, settingOf m disk c templates, .empty⟩, [], rfl, rfl⟩
  · have hstart : (State.empty.inject c.cFlags c.linkFlags).exports = [] := rfl
    generalize State.empty.inject c.cFlags c.linkFlags = start at hstart
    obtain ⟨xs, hxs⟩ := exists_afterSteps_runScript m (settingOf m disk c templates) c start
    refine ⟨⟨m, settingOf m disk c templates, start⟩, xs, hstart, ?_⟩
    dsimp only
    rcases hrun : runScript (settingOf m disk c templates) c start with ⟨stop | v, t⟩
    · rw [hrun] at hxs
      exact hxs
    · rw [hrun] at hxs
      exact finish_state.trans hxs

/-- A run that fails for its artefact was not able to save the exports of its script. -/
theorem saveOutput_of_build {e : ArtifactError}
    (h : (c.build m disk templates).result = .error (.artifact e)) :
    (saveOutput m disk c (c.build m disk templates).state).1 = .error e := by
  have hran : (c.build m disk templates).Ran := by
    rw [BuildOutcome.Ran, h]
    exact True.intro
  obtain ⟨v, s, _, _, hbuild⟩ := build_of_ran hran
  rw [hbuild] at h ⊢
  rw [finish_state]
  exact ((finishes_finish.artifactError e).1 h).1

/-- If the symbols of a run are at fault, then the library refuses them. -/
theorem symbolsError?_of_build {e : ArtifactError}
    (h : (c.build m disk templates).result = .error (.artifact e)) (he : e.OfSymbols) :
    ∃ name, m.objects.symbolsError? name (! c.debug) (c.build m disk templates).state.exports =
      some e := by
  have hsave := saveOutput_of_build h
  unfold saveOutput at hsave
  split at hsave
  · cases hsave
  · obtain ⟨fault, rfl, hfault⟩ := Artifact.performed_save.ofSymbols hsave he
    exact ⟨_, ObjectModule.symbolsError?_eq_some.2 ⟨fault, hfault, he, rfl⟩⟩

end Build

namespace Session

/-- In every session, whatever its steps are and however they end, the table of exports tells
between them what was exported until then: before the session, be it nothing, and by its scripts. So
it does at every moment inside of a step, also while a module is being loaded that is going to fail.
Each export that was executed gave an integer or a text; a name stands in the table once, in the
order of the first exports, with the value of the last one, and is a name that a script can spell. So
the symbols of a run are never refused by what refuses such symbols only if a name is repeated, and
where the library that builds objects is so, no run ever fails because of its symbols. -/
theorem exports_tell (s : Session) (before : List (String × Value))
    (told : s.state.exports.Tells before) (named : Exports.Named before) (xs : List Step)
    (x : Step) :
    let now := s.afterSteps xs
    now.state.exports.Tells (before ++ s.executed xs) ∧
    (∀ outer m, now.setting.Within (now.Passes x) outer m →
      ∃ defs, before ++ s.executed xs <+: defs ∧ defs <+: before ++ s.executed (xs ++ [x]) ∧
        m.state.exports.Tells defs ∧ ∀ name ∈ m.state.exports.names, Script.isName name = true) ∧
    ∀ (c : Configuration) (m : Machine) disk templates,
      (∀ refuse, Artifact.RefusesRepeats refuse →
        refuse (c.build m disk templates).state.exports = none) ∧
      ((∀ name optimize, Artifact.RefusesRepeats (m.objects.symbolsError? name optimize)) →
        ∀ e, (c.build m disk templates).result = .error (.artifact e) → ¬ e.OfSymbols) := by
  intro now
  have htold := tells_afterSteps told xs
  refine ⟨htold, fun outer m hwithin => ?_, fun c m disk templates => ?_⟩
  · obtain ⟨made, hmade, hstate⟩ := hwithin.among fun _ hm => hm.among
    have hexecuted : s.executed (xs ++ [x]) = s.executed xs ++ now.exportedBy x := by
      rw [executed_append]
      exact congrArg _ (List.append_nil _)
    have hle : (before ++ s.executed xs) ++ made <+: before ++ s.executed (xs ++ [x]) := by
      rw [hexecuted, ← List.append_assoc, List.prefix_append_right_inj]
      exact (List.prefix_append _ _).trans hmade
    have htells := htold.becomes hstate
    have hnamed := named.append (s.named_executed (xs ++ [x]))
    exact ⟨_, List.prefix_append _ _, hle, htells,
      fun name => htells.isName fun d hd => hnamed d (hle.subset hd)⟩
  · -- The script of a run is a step of a session, which began with nothing exported.
    obtain ⟨b, ys, hb, hstate⟩ := Build.exists_session m disk c templates
    have haccepted : ∀ refuse, Artifact.RefusesRepeats refuse →
        refuse (c.build m disk templates).state.exports = none := by
      intro refuse hrefuse
      have hnone : b.state.exports.Tells [] := hb ▸ Exports.tells_nil
      have htells := tells_afterSteps hnone ys
      rw [hstate]
      refine Option.eq_none_iff_forall_ne_some.2 fun e he => ?_
      exact hrefuse _ e (fun name => htells.isName (b.named_executed ys)) he htells.distinct
    refine ⟨haccepted, fun hlibrary e h he => ?_⟩
    obtain ⟨name, hrefused⟩ := Build.symbolsError?_of_build h he
    rw [haccepted _ (hlibrary name _)] at hrefused
    cases hrefused

/-- A module exports two symbols, one of them twice, and fails at the third. A script exports the
first one once more, which leaves it in its place. No run on this machine fails because of its
symbols. -/
theorem failed_module_exports_told :
    let disk := FileSystem.ofEntries ⟨"/"⟩ [(⟨"/a.t"⟩, .file (.text
      "export x = 1\nexport y = 2\nexport x = 'z'\nexport t = nil\n"))]
    let s : Session := ⟨.plain {}, ⟨disk, ⟨[], "t"⟩, [], .checked⟩, State.empty⟩
    let r := Step.require ⟨".a", some ⟨"/main.t"⟩⟩
    let xs := [r, Step.exec "export x = 3\n"]
    (s.step r).1.failure?.isSome = true ∧
      (s.afterSteps [r]).state.exports = [⟨"x", .str "z"⟩, ⟨"y", .int 2⟩] ∧
      (s.afterSteps xs).state.exports = [⟨"x", .int 3⟩, ⟨"y", .int 2⟩] ∧
      ((s.executed xs).map Prod.fst).eraseDups = ["x", "y"] ∧
      (s.executed xs).reverse.lookup "x" = some (.int 3) ∧
      ∀ (c : Configuration) e, (c.build s.machine disk []).result = .error (.artifact e) →
        ¬ e.OfSymbols := by
  intro disk s r xs
  have htell := exports_tell s [] Exports.tells_nil Exports.named_nil xs r
  have hexports : (s.afterSteps xs).state.exports = [⟨"x", .int 3⟩, ⟨"y", .int 2⟩] := by
    decide +kernel
  have htells : (s.afterSteps xs).state.exports.Tells (s.executed xs) := htell.1
  refine ⟨by decide +kernel, by decide +kernel, hexports, ?_, ?_, fun c => ?_⟩
  · rw [← htells.order, hexports]
    rfl
  · rw [← htells.latest, hexports]
    rfl
  · exact (htell.2.2 c s.machine disk []).2 ObjectModule.listsTable.refusesRepeats

end Session

end ScriptBuild
