import ScriptBuild.Proofs.Build.Complete
import ScriptBuild.Proofs.FileSystem.Ways

/-!
# What a run does to files

A run whose script comes to its end may write two files, the output and the dependency file. The
output is saved first, but that has no influence on whether the dependency file can be written, and
the error of the dependency file counts before that of the output. Main statement: `build_effects`.
-/

namespace ScriptBuild

open FileSystem (SameWays)
open Artifact (Unchanged)

section MapError

variable {ε δ α : Type} {f : ε → δ} {x : Except ε α}

/-- Another error changes no success. -/
theorem mapError_eq_ok {a : α} : x.mapError f = .ok a ↔ x = .ok a := by
  cases x with
  | ok b => exact ⟨fun h => congrArg Except.ok (Except.ok.inj h),
      fun h => congrArg Except.ok (Except.ok.inj h)⟩
  | error e => exact iff_of_false nofun nofun

theorem mapError_eq_error {d : δ} : x.mapError f = .error d ↔ ∃ e, x = .error e ∧ d = f e := by
  cases x with
  | ok b => exact iff_of_false nofun nofun
  | error e =>
    constructor
    · intro h
      cases h
      exact ⟨e, rfl, rfl⟩
    · rintro ⟨_, he, rfl⟩
      cases he
      rfl

end MapError

variable {disk disk' : FileSystem}

namespace Depfile

variable {depfile target : Path} {dependencies : List Path} {root : Option Path}

theorem emit_eq_ok {written : FileSystem} :
    emit disk depfile target dependencies root = .ok written ↔
      ∃ line, render disk target dependencies root = .ok line ∧
        disk.write depfile (.text line) = .ok written := by
  unfold emit
  rcases render disk target dependencies root with e | line
  · simp [bind, Except.bind]
  · simp [bind, Except.bind, mapError_eq_ok]

theorem emit_eq_error {e : DepfileError} :
    emit disk depfile target dependencies root = .error e ↔
      render disk target dependencies root = .error e ∨
        ∃ line cause, render disk target dependencies root = .ok line ∧
          disk.write depfile (.text line) = .error cause ∧ e = .write depfile cause := by
  unfold emit
  rcases render disk target dependencies root with e' | line
  · simp [bind, Except.bind]
  · simp [bind, Except.bind, mapError_eq_error]

/-- Whether the record can be made hangs on the ways of the file system only. -/
theorem exists_emit (h : disk.SameWays disk') :
    (∃ written, emit disk' depfile target dependencies root = .ok written) ↔
      ∃ written, emit disk depfile target dependencies root = .ok written := by
  simp only [emit_eq_ok, render_congr h.absolute_eq]
  constructor
  · rintro ⟨written, line, hline, hwrite⟩
    obtain ⟨written', hwrite'⟩ := (h.exists_write _ _).1 ⟨written, hwrite⟩
    exact ⟨written', line, hline, hwrite'⟩
  · rintro ⟨written, line, hline, hwrite⟩
    obtain ⟨written', hwrite'⟩ := (h.exists_write _ _).2 ⟨written, hwrite⟩
    exact ⟨written', line, hline, hwrite'⟩

end Depfile

/-- The location at which a file is written that was asked for. -/
def FileSystem.Writes (disk : FileSystem) (file : Option Path) (loc : Location) : Prop :=
  ∃ p, file = some p ∧ disk.locate .create p = .ok loc

namespace Build

variable {m : Machine} {c : Configuration} {s : State} {dependencies : List Path}

/-- A dependency file is asked for, and its record cannot be formatted or not be written. -/
inductive DepfileFails (disk : FileSystem) (c : Configuration) (dependencies : List Path) : Prop where
  | format {depfile : Path} {e : DepfileError} (asked : c.depfile = some depfile)
      (failed : Depfile.render disk c.depfileTarget dependencies c.depfileRoot = .error e)
  | write {depfile : Path} {line : String} {cause : OsError} (asked : c.depfile = some depfile)
      (rendered : Depfile.render disk c.depfileTarget dependencies c.depfileRoot = .ok line)
      (failed : disk.write depfile (.text line) = .error cause)

theorem depfileFails_iff :
    DepfileFails disk c dependencies ↔ ∃ e, writeDepfile disk c dependencies = .error e := by
  unfold writeDepfile
  constructor
  · rintro (⟨asked, failed⟩ | ⟨asked, rendered, failed⟩)
    · rw [asked]
      exact ⟨_, Depfile.emit_eq_error.2 (.inl failed)⟩
    · rw [asked]
      exact ⟨_, Depfile.emit_eq_error.2 (.inr ⟨_, _, rendered, failed, rfl⟩)⟩
  · rintro ⟨e, h⟩
    cases hdepfile : c.depfile with
    | none =>
      rw [hdepfile] at h
      cases h
    | some depfile =>
      rw [hdepfile] at h
      rcases Depfile.emit_eq_error.1 h with failed | ⟨line, cause, rendered, failed, _⟩
      · exact .format hdepfile failed
      · exact .write hdepfile rendered failed

theorem not_depfileFails_iff :
    ¬ DepfileFails disk c dependencies ↔ ∃ written, writeDepfile disk c dependencies = .ok written := by
  rw [depfileFails_iff]
  cases writeDepfile disk c dependencies <;> simp

/-- Saving the output has no influence on whether the dependency file fails. -/
theorem depfileFails_congr (h : disk.SameWays disk') :
    DepfileFails disk' c dependencies ↔ DepfileFails disk c dependencies := by
  refine not_iff_not.1 ?_
  rw [not_depfileFails_iff, not_depfileFails_iff]
  unfold writeDepfile
  cases c.depfile with
  | none => simp
  | some depfile => exact Depfile.exists_emit h

/-- What comes of saving the output of a run. -/
inductive Saves (m : Machine) (disk : FileSystem) (c : Configuration) (s : State) :
    Except ArtifactError Unit × FileSystem → Prop where
  | unasked (none : c.output = none) : Saves m disk c s (.ok (), disk)
  /-- Nothing but an object is ever saved, and that by one write. -/
  | written {output : Path} {object : Content} {after : FileSystem} (asked : c.output = some output)
      (emitted : m.objects.emit (Artifact.moduleName output) s.exports (! c.debug) = .ok object)
      (kept : disk.write output object = .ok after) : Saves m disk c s (.ok (), after)
  | failed {e : ArtifactError} {after : FileSystem} (unchanged : Unchanged disk after) :
      Saves m disk c s (.error e, after)

theorem saves_saveOutput : Saves m disk c s (saveOutput m disk c s) := by
  unfold saveOutput
  cases houtput : c.output with
  | none => exact .unasked houtput
  | some output =>
    have hperformed := @Artifact.performed_save m disk output s.exports s.linkFlags (! c.debug)
    dsimp only
    generalize Artifact.save m disk output s.exports s.linkFlags (! c.debug) = run at hperformed
    cases hperformed with
    | refused | unwritten => exact .failed (.refl disk)
    | written emitted _ kept => exact .written houtput emitted kept
    | unlinked _ _ _ unchanged => exact .failed unchanged

theorem Artifact.Unchanged.sameWays {after : FileSystem} (h : Unchanged disk after) :
    disk.SameWays after where
  workingDirectory := h.workingDirectory
  lookup loc := .inl (h.lookup loc)

section Saves

variable {run : Except ArtifactError Unit × FileSystem} (h : Saves m disk c s run)
include h

/-- Saving the exports keeps the ways, and so does failing to. -/
theorem Saves.sameWays : disk.SameWays run.2 := by
  cases h with
  | unasked => exact .refl _
  | written _ _ kept => exact FileSystem.sameWays_of_write kept
  | failed unchanged => exact Artifact.Unchanged.sameWays unchanged

/-- A location that saving changed is that of an output that was saved. -/
theorem Saves.writes {loc : Location} (hchanged : run.2.lookup? loc ≠ disk.lookup? loc) :
    disk.Writes c.output loc ∧ run.1 = .ok () := by
  cases h with
  | unasked => exact absurd rfl hchanged
  | written asked _ kept => exact ⟨⟨_, asked, FileSystem.locate_of_write kept hchanged⟩, rfl⟩
  | failed unchanged => exact absurd (unchanged.lookup loc) hchanged

/-- An output that was saved holds the object at the place that its path leads to. -/
theorem Saves.object {output : Path} (asked : c.output = some output) (ok : run.1 = .ok ()) :
    ∃ loc object, disk.locate .create output = .ok loc ∧
      m.objects.emit (Artifact.moduleName output) s.exports (! c.debug) = .ok object ∧
      run.2.lookup? loc = some (.file object) := by
  cases h with
  | unasked none =>
    rw [asked] at none
    cases none
  | written asked' emitted kept =>
    rw [asked] at asked'
    cases asked'
    obtain ⟨loc, hloc, _, hfound⟩ := FileSystem.locate_reach_of_write kept
    exact ⟨loc, _, hloc, emitted, hfound⟩
  | failed => cases ok

end Saves

theorem sameWays_saveOutput : disk.SameWays (saveOutput m disk c s).2 :=
  saves_saveOutput.sameWays

/-- A location that writing the dependency file changed is that of the dependency file. -/
theorem writes_of_writeDepfile {written : FileSystem} {loc : Location}
    (h : writeDepfile disk c dependencies = .ok written)
    (hchanged : written.lookup? loc ≠ disk.lookup? loc) : disk.Writes c.depfile loc := by
  unfold writeDepfile at h
  cases hdepfile : c.depfile with
  | none =>
    rw [hdepfile] at h
    cases h
    exact absurd rfl hchanged
  | some depfile =>
    rw [hdepfile] at h
    obtain ⟨_, _, hwrite⟩ := Depfile.emit_eq_ok.1 h
    exact ⟨depfile, rfl, FileSystem.locate_of_write hwrite hchanged⟩

/-- How a run ends after its script, step by step. -/
inductive Finishes (m : Machine) (disk : FileSystem) (c : Configuration) (s : State) :
    BuildOutcome → Prop where
  /-- The dependency file failed, whatever became of the output. -/
  | unrecorded {e : DepfileError}
      (failed : writeDepfile (saveOutput m disk c s).2 c s.dependencies = .error e) :
      Finishes m disk c s ⟨.error (.depfile e), s, (saveOutput m disk c s).2⟩
  | unsaved {e : ArtifactError} {written : FileSystem}
      (failed : (saveOutput m disk c s).1 = .error e)
      (recorded : writeDepfile (saveOutput m disk c s).2 c s.dependencies = .ok written) :
      Finishes m disk c s ⟨.error (.artifact e), s, written⟩
  | done {written : FileSystem} (kept : (saveOutput m disk c s).1 = .ok ())
      (recorded : writeDepfile (saveOutput m disk c s).2 c s.dependencies = .ok written) :
      Finishes m disk c s
        ⟨.ok ⟨s.dependencies, if c.output.isSome then s.exports else []⟩, s, written⟩

theorem finishes_finish : Finishes m disk c s (finish m disk c s) := by
  unfold finish
  dsimp only
  cases hrecorded : writeDepfile (saveOutput m disk c s).2 c s.dependencies with
  | error e => exact .unrecorded hrecorded
  | ok written =>
    cases h : (saveOutput m disk c s).1 with
    | error e => exact .unsaved h hrecorded
    | ok => exact .done h hrecorded

section Finishes

variable {o : BuildOutcome}

theorem Finishes.depfileError (h : Finishes m disk c s o) :
    (∃ e, o.result = .error (.depfile e)) ↔ DepfileFails disk c s.dependencies := by
  rw [← depfileFails_congr (@sameWays_saveOutput disk m c s)]
  cases h with
  | unrecorded failed => exact iff_of_true ⟨_, rfl⟩ (depfileFails_iff.2 ⟨_, failed⟩)
  | unsaved _ recorded | done _ recorded =>
    exact iff_of_false (by simp) (not_depfileFails_iff.2 ⟨_, recorded⟩)

theorem Finishes.artifactError (h : Finishes m disk c s o) (e : ArtifactError) :
    o.result = .error (.artifact e) ↔
      (saveOutput m disk c s).1 = .error e ∧ ¬ DepfileFails disk c s.dependencies := by
  rw [← h.depfileError]
  rcases h with failed | ⟨failed, _⟩ | ⟨kept, _⟩
  · simp
  · simp [failed]
  · simp [kept]

/-- The dependency file holds its record whether or not saving worked. -/
theorem Finishes.record (h : Finishes m disk c s o) {depfile : Path}
    (asked : c.depfile = some depfile) (made : ¬ DepfileFails disk c s.dependencies) :
    ∃ line, Depfile.render disk c.depfileTarget s.dependencies c.depfileRoot = .ok line ∧
      o.disk.readText depfile = .ok line := by
  have hmade : ¬ ∃ e, o.result = .error (.depfile e) := fun failed => made (h.depfileError.1 failed)
  have hwrite : writeDepfile (saveOutput m disk c s).2 c s.dependencies = .ok o.disk := by
    cases h with
    | unrecorded => exact absurd ⟨_, rfl⟩ hmade
    | unsaved _ recorded | done _ recorded => exact recorded
  rw [writeDepfile, asked] at hwrite
  obtain ⟨line, hline, htext⟩ := Depfile.readText_of_emit hwrite
  have hways : disk.SameWays (saveOutput m disk c s).2 := sameWays_saveOutput
  exact ⟨line, Depfile.render_congr hways.absolute_eq .. ▸ hline, htext⟩

/-- Behind saving, a location is changed only by the dependency file. -/
theorem Finishes.writes (h : Finishes m disk c s o) {loc : Location}
    (hchanged : o.disk.lookup? loc ≠ (saveOutput m disk c s).2.lookup? loc) :
    disk.Writes c.depfile loc ∧ ¬ DepfileFails disk c s.dependencies := by
  have hways : disk.SameWays (saveOutput m disk c s).2 := sameWays_saveOutput
  rw [← h.depfileError]
  cases h with
  | unrecorded => exact absurd rfl hchanged
  | unsaved _ recorded | done _ recorded =>
    obtain ⟨depfile, hdepfile, hplace⟩ := writes_of_writeDepfile recorded hchanged
    exact ⟨⟨depfile, hdepfile, hways.locate_create.1 hplace⟩, by simp⟩

/-- An output that was saved is kept, unless the dependency file was written in its place. -/
theorem Finishes.output (h : Finishes m disk c s o) {output : Path} (asked : c.output = some output)
    (kept : (saveOutput m disk c s).1 = .ok ()) :
    ∃ loc object, disk.locate .create output = .ok loc ∧
      m.objects.emit (Artifact.moduleName output) s.exports (! c.debug) = .ok object ∧
      (o.disk.lookup? loc = some (.file object) ∨
        disk.Writes c.depfile loc ∧ ¬ DepfileFails disk c s.dependencies) := by
  obtain ⟨loc, object, hloc, hemit, hfound⟩ := saves_saveOutput.object asked kept
  refine ⟨loc, object, hloc, hemit, ?_⟩
  by_cases hsame : o.disk.lookup? loc = (saveOutput m disk c s).2.lookup? loc
  · exact .inl (hsame.trans hfound)
  · exact .inr (h.writes hsame)

end Finishes

end Build

end ScriptBuild
