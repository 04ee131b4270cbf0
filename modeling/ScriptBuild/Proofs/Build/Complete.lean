import ScriptBuild.FileSystem.Build
import ScriptBuild.Proofs.Artifact.Saving
import ScriptBuild.Proofs.Build.Run
import ScriptBuild.Proofs.FileSystem.Write
import ScriptBuild.Proofs.Import.Replay

/-!
# The dependencies of a run are complete

Files that are neither the script of a run nor recorded by it have no influence on it, as long as
they are there. Main statement: `build_eq_of_alike`.
-/

namespace ScriptBuild

open FileSystem (AlikeOn WrittenAlike)

variable {kept : Path → Prop} {disk disk' : FileSystem}

namespace Depfile

/-- Of a file system the line says only which absolute forms paths have. -/
theorem render_congr (h : ∀ p, disk'.absolute p = disk.absolute p) (target : Path)
    (dependencies : List Path) (root : Option Path) :
    render disk' target dependencies root = render disk target dependencies root := by
  have habsolute : absolute disk' = absolute disk := by
    funext p
    rw [absolute, absolute, h]
  have hshown : shown disk' = shown disk := by
    funext root p
    unfold shown
    rw [habsolute]
  unfold render
  rw [habsolute, hshown]

theorem emit_alike (h : disk.AlikeOn kept disk') (depfile target : Path)
    (dependencies : List Path) (root : Option Path) :
    WrittenAlike kept (emit disk depfile target dependencies root)
      (emit disk' depfile target dependencies root) := by
  unfold emit
  rw [render_congr h.absolute_eq]
  rcases render disk target dependencies root with e | line
  · exact .error e
  · exact (h.write depfile (.text line)).mapError _

/-- The dependency file holds its line after it was written. -/
theorem readText_of_emit {depfile target : Path} {dependencies : List Path} {root : Option Path}
    {written : FileSystem} (h : emit disk depfile target dependencies root = .ok written) :
    ∃ line, render disk target dependencies root = .ok line ∧
      written.readText depfile = .ok line := by
  unfold emit at h
  rcases hrender : render disk target dependencies root with e | line
  · rw [hrender] at h
    cases h
  · rw [hrender] at h
    refine ⟨line, rfl, ?_⟩
    rcases hwrite : disk.write depfile (.text line) with cause | result
    · simp only [bind, Except.bind, hwrite] at h
      cases h
    · simp only [bind, Except.bind, hwrite] at h
      cases h
      exact FileSystem.readText_of_write hwrite

end Depfile

/-- Both attempts come to the same and leave file systems that are alike. -/
structure EndAlike (kept : Path → Prop) {α : Type} (run run' : α × FileSystem) : Prop where
  result : run'.1 = run.1
  disk : run.2.AlikeOn kept run'.2

namespace Artifact

theorem Unchanged.alike (h : disk.AlikeOn kept disk') {after after' : FileSystem}
    (hafter : Unchanged disk after) (hafter' : Unchanged disk' after') :
    after.AlikeOn kept after' where
  workingDirectory :=
    hafter'.workingDirectory.trans (h.workingDirectory.trans hafter.workingDirectory.symm)
  lookup loc := by
    rw [hafter.lookup, hafter'.lookup]
    exact h.lookup loc

/-- The temporary file has the same path in both, and is gone from both. -/
theorem linkThrough_alike (h : disk.AlikeOn kept disk') (m : Machine) (format : OutputFormat)
    (output : Path) (linkFlags : List String) (object : Content) :
    EndAlike kept (linkThrough m disk format output linkFlags object)
      (linkThrough m disk' format output linkFlags object) := by
  have hsame : m.temporary.place disk' = m.temporary.place disk :=
    m.temporary.alike disk disk' (h.mono fun _ hp => hp.elim)
  cases hplace : m.temporary.place disk with
  | error cause =>
    rw [linkThrough_of_error hplace, linkThrough_of_error (hsame.trans hplace)]
    exact ⟨rfl, h⟩
  | ok temp =>
    obtain ⟨after, hlink, hafter⟩ := linkThrough_of_place format output linkFlags object hplace
    obtain ⟨after', hlink', hafter'⟩ :=
      linkThrough_of_place format output linkFlags object (hsame.trans hplace)
    rw [hlink, hlink']
    exact ⟨rfl, hafter.alike h hafter'⟩

theorem save_alike (h : disk.AlikeOn kept disk') (m : Machine) (output : Path) (exports : Exports)
    (linkFlags : List String) (optimize : Bool) :
    EndAlike kept (save m disk output exports linkFlags optimize)
      (save m disk' output exports linkFlags optimize) := by
  cases hemit : m.objects.emit (moduleName output) exports optimize with
  | error e =>
    rw [save, save, hemit]
    exact ⟨rfl, h⟩
  | ok object =>
    rw [save_of_emitted hemit, save_of_emitted hemit]
    split
    · have hwritten : WrittenAlike kept (disk.write output object) (disk'.write output object) :=
        h.write output object
      generalize disk.write output object = result, disk'.write output object = result' at hwritten
      cases hwritten with
      | error cause => exact ⟨rfl, h⟩
      | ok hafter => exact ⟨rfl, hafter⟩
    · exact linkThrough_alike h m _ output linkFlags object

end Artifact

namespace Build

variable {m : Machine} {c : Configuration} {s : State}

theorem saveOutput_alike (h : disk.AlikeOn kept disk') :
    EndAlike kept (saveOutput m disk c s) (saveOutput m disk' c s) := by
  unfold saveOutput
  split
  · exact ⟨rfl, h⟩
  · exact Artifact.save_alike h m _ _ _ _

theorem writeDepfile_alike (h : disk.AlikeOn kept disk') (dependencies : List Path) :
    WrittenAlike kept (writeDepfile disk c dependencies) (writeDepfile disk' c dependencies) := by
  unfold writeDepfile
  split
  · exact .ok h
  · exact Depfile.emit_alike h _ _ _ _

/-- What follows the script comes to the same whatever files hold. -/
theorem finish_result_eq (h : disk.AlikeOn kept disk') :
    (finish m disk' c s).result = (finish m disk c s).result := by
  obtain ⟨hresult, hdisk⟩ : EndAlike kept (saveOutput m disk c s) (saveOutput m disk' c s) :=
    saveOutput_alike h
  have hwritten : WrittenAlike kept (writeDepfile (saveOutput m disk c s).2 c s.dependencies)
      (writeDepfile (saveOutput m disk' c s).2 c s.dependencies) :=
    writeDepfile_alike hdisk s.dependencies
  unfold finish
  dsimp only
  rw [hresult]
  generalize writeDepfile (saveOutput m disk c s).2 c s.dependencies = written,
    writeDepfile (saveOutput m disk' c s).2 c s.dependencies = written' at hwritten
  generalize (saveOutput m disk c s).1 = saved
  cases hwritten with
  | error e => rfl
  | ok => cases saved <;> rfl

theorem finish_of_error {e : DepfileError}
    (h : writeDepfile (saveOutput m disk c s).2 c s.dependencies = .error e) :
    (finish m disk c s).result = .error (.depfile e) := by
  unfold finish
  dsimp only
  rw [h]

theorem finish_of_ok {written : FileSystem}
    (h : writeDepfile (saveOutput m disk c s).2 c s.dependencies = .ok written) :
    (finish m disk c s).disk = written := by
  unfold finish
  dsimp only
  rw [h]
  cases (saveOutput m disk c s).1 <;> rfl

/-- A dependency file that was asked for holds its line, unless it was not made. -/
theorem readText_of_finish {depfile : Path} (hdepfile : c.depfile = some depfile)
    (hmade : ∀ e, (finish m disk c s).result ≠ .error (.depfile e)) :
    ∃ line, Depfile.render (saveOutput m disk c s).2 c.depfileTarget s.dependencies c.depfileRoot =
      .ok line ∧ (finish m disk c s).disk.readText depfile = .ok line := by
  rcases hwrite : writeDepfile (saveOutput m disk c s).2 c s.dependencies with e | written
  · exact absurd (finish_of_error hwrite) (hmade e)
  · rw [finish_of_ok hwrite]
    unfold writeDepfile at hwrite
    rw [hdepfile] at hwrite
    exact Depfile.readText_of_emit hwrite

/-- The script of a run comes to its end alike if it is kept and all that was recorded. -/
theorem runScript_on {setting : Setting} {v : Value} {t : State}
    (h : setting.disk.AlikeOn kept disk')
    (hrun : runScript setting c s = (.ok v, t))
    (hentry : ∀ p, setting.disk.canonicalize c.filename = .ok p → kept p)
    (hkept : ∀ p ∈ t.dependencies, kept p) :
    runScript (setting.on disk') c s = (.ok v, t) := by
  unfold runScript at hrun ⊢
  rw [show (setting.on disk').disk = disk' from rfl, h.canonicalize_eq]
  rcases hcanonical : setting.disk.canonicalize c.filename with cause | entry
  · rw [hcanonical] at hrun
    cases hrun
  · rw [hcanonical] at hrun
    dsimp only at hrun ⊢
    rcases hload : setting.load entry s with ⟨e | chunk, u⟩
    · rw [Eval.bind_of_error hload] at hrun
      cases hrun
    · rw [Eval.bind_of_ok hload] at hrun
      obtain ⟨loc, source, hread, hchunk, rfl⟩ := Setting.load_eq_ok.1 hload
      have hpath : loc.toPath = entry :=
        FileSystem.toPath_of_readFile (FileSystem.canonicalize_canonical hcanonical) hread
      have hread' := h.readFile_of_kept (hpath ▸ hentry entry hcanonical) hread
      have hload' : (setting.on disk').load entry s = (.ok chunk, s.log (.read loc.toPath)) :=
        Setting.load_eq_ok.2 ⟨loc, source, hread', hchunk, rfl⟩
      rw [Eval.bind_of_ok hload']
      exact (Setting.follows_runChunk h chunk).follow hrun hkept

/-- A run whose script comes to its end does the same on every file system with the same directories,
links and regular files, in which only such files hold something else that are neither the script nor
recorded: its script comes to its end, with the same dependencies in the same order, the same
exports, the same flags and whatever else is in the state; saving and writing the dependency file
work or fail as before, and the dependency file holds the same text. -/
theorem build_eq_of_alike (c : Configuration) (m : Machine) (disk disk' : FileSystem)
    (templates : List String) (ran : (c.build m disk templates).Ran)
    (alike : disk.AlikeOn (fun p => disk.canonicalize c.filename = .ok p ∨
      p ∈ (c.build m disk templates).state.dependencies) disk') :
    let o := c.build m disk templates
    let o' := c.build m disk' templates
    o'.Ran ∧ o'.state = o.state ∧ o'.result = o.result ∧
    ∀ depfile, c.depfile = some depfile → (∀ e, o.result ≠ .error (.depfile e)) →
      ∃ line, o.disk.readText depfile = .ok line ∧ o'.disk.readText depfile = .ok line := by
  intro o o'
  obtain ⟨v, s, hvalid, hrun, hfinish⟩ := build_of_ran ran
  have hstate : o.state = s := (congrArg BuildOutcome.state hfinish).trans finish_state
  have hrun' : runScript (settingOf m disk' c templates) c
      (State.empty.inject c.cFlags c.linkFlags) = (.ok v, s) :=
    runScript_on alike hrun (fun p hp => .inl hp) fun p hp => .inr (hstate ▸ hp)
  have hfinish' : o' = finish m disk' c s := build_of_runScript hvalid hrun'
  rw [hfinish', show o = finish m disk c s from hfinish]
  refine ⟨finish_ran, finish_state.trans finish_state.symm, finish_result_eq alike, ?_⟩
  intro depfile hdepfile hmade
  obtain ⟨line, hline, htext⟩ := readText_of_finish hdepfile hmade
  have hmade' : ∀ e, (finish m disk' c s).result ≠ .error (.depfile e) := by
    rw [finish_result_eq alike]
    exact hmade
  obtain ⟨line', hline', htext'⟩ := readText_of_finish hdepfile hmade'
  rw [Depfile.render_congr (saveOutput_alike alike).disk.absolute_eq, hline] at hline'
  cases hline'
  exact ⟨line, htext, htext'⟩

/-- A module that a script does not ask for may change. -/
theorem unused_module_changed :
    let disk := FileSystem.ofEntries ⟨"/"⟩
      [(⟨"/main.t"⟩, .file (.text "export n = require \"a\"\n")),
       (⟨"/a.t"⟩, .file (.text "return 1\n")), (⟨"/b.t"⟩, .file (.text "return 2\n"))]
    let disk' := disk.put ["b.t"] (.file (.text "return 3\n"))
    let c : Configuration :=
      { filename := ⟨"/main.t"⟩, depfile := some ⟨"/main.d"⟩, noDefaultModuleDirectories := true }
    let o := c.build (.plain {}) disk Setting.defaultTemplates
    let o' := c.build (.plain {}) disk' Setting.defaultTemplates
    o.Ran ∧ o'.result = o.result ∧ o'.state = o.state ∧
      o'.disk.readText ⟨"/main.d"⟩ = o.disk.readText ⟨"/main.d"⟩ := by
  intro disk disk' c o o'
  have hresult : o.result = .ok ⟨[⟨"/a.t"⟩], []⟩ :=
    BuildOutcome.result_eq_ok (by decide +kernel)
  have hran : o.Ran := by
    rw [BuildOutcome.Ran, hresult]
    trivial
  have hkept : ¬ (disk.canonicalize c.filename = .ok ⟨"/b.t"⟩ ∨
      ⟨"/b.t"⟩ ∈ o.state.dependencies) := by
    have hentry : (disk.canonicalize c.filename).toOption ≠ some ⟨"/b.t"⟩ ∧
        ⟨"/b.t"⟩ ∉ o.state.dependencies := by decide +kernel
    rintro (h | h)
    · exact hentry.1 (by rw [h]; rfl)
    · exact hentry.2 h
  have hfile : disk.lookup? ["b.t"] = some (.file (.text "return 2\n")) := by decide +kernel
  have hmade : ∀ e, o.result ≠ .error (.depfile e) := by
    intro e herror
    cases hresult.symm.trans herror
  obtain ⟨_, hstate, hsame, hdepfile⟩ := build_eq_of_alike c (.plain {}) disk disk'
    Setting.defaultTemplates hran (FileSystem.alikeOn_put (by decide) hfile hkept _)
  obtain ⟨line, htext, htext'⟩ := hdepfile ⟨"/main.d"⟩ rfl hmade
  exact ⟨hran, hsame, hstate, htext'.trans htext.symm⟩

end Build

end ScriptBuild
