import ScriptBuild.FileSystem.Alike
import ScriptBuild.FileSystem.Place
import ScriptBuild.Header.Scan
import ScriptBuild.Resolution

/-!
# Finding and reading in file systems that are alike

Where two file systems differ only in what some files hold, specifiers and headers are found alike,
and what is kept is read alike. Main statements: `AlikeOn.resolve_eq` and `AlikeOn.readFile_of_kept`.
-/

namespace ScriptBuild.FileSystem.AlikeOn

variable {kept : Path → Prop} {fs fs' : FileSystem}

theorem isSome_content? (h : AlikeOn kept fs fs') (loc : Location) :
    (fs'.content? loc).isSome = (fs.content? loc).isSome := by
  unfold content?
  rcases h.lookup loc with heq | ⟨_, c, c', hfile, hfile'⟩
  · rw [heq]
  · rw [hfile, hfile']
    rfl

theorem content?_of_kept (h : AlikeOn kept fs fs') {loc : Location} (hkept : kept loc.toPath) :
    fs'.content? loc = fs.content? loc := by
  unfold content?
  rcases h.lookup loc with heq | ⟨hnot, _⟩
  · rw [heq]
  · exact absurd hkept hnot

theorem isFile_eq (h : AlikeOn kept fs fs') : fs'.isFile = fs.isFile := by
  funext p
  rw [isFile, isFile, h.locate_eq]
  split
  · exact h.isSome_content? _
  · rfl

theorem probe_eq (h : AlikeOn kept fs fs') (p : Path) : fs'.probe p = fs.probe p := by
  rw [probe, probe, h.locate_eq]
  split
  · rw [h.isSome_content?]
  · rfl

/-- A text that is kept is read alike. -/
theorem readFile_of_kept (h : AlikeOn kept fs fs') {p : Path} {loc : Location} {source : String}
    (hkept : kept loc.toPath) (hread : fs.readFile p = .ok (loc, source)) :
    fs'.readFile p = .ok (loc, source) := by
  obtain ⟨hloc, htext⟩ := readFile_eq_ok.1 hread
  refine readFile_eq_ok.2 ⟨?_, ?_⟩
  · rw [h.locate_eq, hloc]
  · rw [h.content?_of_kept hkept, htext]

/-- A specifier stands for the same file. -/
theorem resolve_eq (h : AlikeOn kept fs fs') (r : Resolver) (spec : String)
    (origin : Option Path) : r.resolve fs' spec origin = r.resolve fs spec origin := by
  have hfirst : Resolver.firstFile fs' = Resolver.firstFile fs := by
    funext cs
    induction cs with
    | nil => rfl
    | cons c cs ih => rw [Resolver.firstFile, Resolver.firstFile, h.probe_eq, ih]
  unfold Resolver.resolve
  rw [hfirst]

end ScriptBuild.FileSystem.AlikeOn
