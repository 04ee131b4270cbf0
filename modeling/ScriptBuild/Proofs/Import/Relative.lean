import ScriptBuild.FileSystem.Build
import ScriptBuild.Proofs.FileSystem.Lexical
import ScriptBuild.Proofs.Import.Keys
import ScriptBuild.Proofs.Resolution.Grammar

/-!
# Relative imports and the loader that opened the file

A script that the search directories lead to asks with the canonical path of its file, one that the
templates lead to with the path as the template has it. Main statements: `resolved?_congr` says that
relative specifiers resolve alike next to files in one directory, as far as the texts of their paths
go, and `asks_by_loader` what becomes of the imports of one file that is opened in both ways.
-/

namespace ScriptBuild

namespace Resolver

variable {fs : FileSystem} {spec : String} {a b : Path}

/-- Where a relative specifier leads next to a file if no link stands on the way. -/
def targetLocation (fs : FileSystem) (spec : String) (origin : Path) : Location :=
  (Specifier.parse spec).toPath.pieces.foldl Location.enter (fs.lexical origin.directory)

theorem spells_target (hname : Specifier.isModuleName spec = true) {start : Location}
    (hstart : fs.startOf a = .ok start) :
    fs.Spells (relativeTarget (Specifier.parse spec) a) (targetLocation fs spec a) := by
  have hparsed := Specifier.isProper_parse hname
  have hpieces := ModuleName.pieces_toPath hparsed
  have hq := ModuleName.isAbsolute_toPath hparsed
  have hends : (a.directory.join (Specifier.parse spec).toPath).normal.names ≠ [] := by
    -- The last piece is a segment, which is entered as a name.
    obtain ⟨above, last, hlast, hsegment⟩ := ModuleName.exists_last hparsed
    obtain ⟨_, hvoid, hup⟩ := ModuleName.isPiece_of_isSegment hsegment
    rw [Path.normal_join hq, hpieces, hlast, ← List.append_assoc, List.foldl_append,
      List.foldl_cons, List.foldl_nil, Path.Normal.enter_name hvoid hup]
    simp
  have hproper := (a.directory.join (Specifier.parse spec).toPath).proper_normal
  refine .intro hproper hends (Path.pieces_ofComponents hproper hends) ?_ ?_
  · unfold FileSystem.startOf at hstart
    split at hstart
    · next habsolute =>
      refine .inl (Path.normal_start_of_isAbsolute ?_)
      rw [Path.isAbsolute_join_eq hq]
      exact Path.isAbsolute_directory habsolute
    · exact .inr ⟨start, hstart⟩
  · rw [FileSystem.location_normal, FileSystem.lexical_join fs _ hq, targetLocation]

/-- What stands at paths in normal form for one location, with one extension, is the same. -/
theorem probe_withExtension {p q : Path} {loc : Location} (hp : fs.Spells p loc)
    (hq : fs.Spells q loc) (extension : String) :
    fs.probe (p.withExtension extension) = fs.probe (q.withExtension extension) := by
  have hsame := hp.locate_congr hq ("." ++ extension)
  rw [← String.append_assoc, ← String.append_assoc] at hsame
  unfold FileSystem.probe Path.withExtension
  rw [hsame]

/-- Next to files in one directory, as far as the texts of their paths go, the same candidates are
found. -/
theorem firstFile_congr {start start' : Location} (ha : fs.startOf a = .ok start)
    (hb : fs.startOf b = .ok start') (h : fs.lexical a.directory = fs.lexical b.directory)
    (hname : Specifier.isModuleName spec = true) (r : Resolver) :
    (firstFile fs (r.relativeCandidates (Specifier.parse spec) a)).1 =
      (firstFile fs (r.relativeCandidates (Specifier.parse spec) b)).1 := by
  have hspells := spells_target hname ha
  have hspells' := spells_target hname hb
  rw [targetLocation, h] at hspells
  have hinit : Path.IsPiece packageFile.text := ⟨by decide, by decide⟩
  have hfile := probe_withExtension hspells hspells' r.extension
  have hpackage := probe_withExtension (hspells.join hinit) (hspells'.join hinit) r.extension
  change fs.probe (((relativeTarget (Specifier.parse spec) a).join packageFile).withExtension
      r.extension) = fs.probe (((relativeTarget (Specifier.parse spec) b).join
        packageFile).withExtension r.extension) at hpackage
  simp only [relativeCandidates, candidatesAt, firstFile, hfile, hpackage]
  split
  · rfl
  · split <;> rfl

end Resolver

namespace Setting

variable {setting : Setting} {a b : Path}

/-- Next to files in one directory, as far as the texts of their paths go, a specifier leads to the
same file. -/
theorem resolved?_congr {start start' : Location} (ha : setting.disk.startOf a = .ok start)
    (hb : setting.disk.startOf b = .ok start')
    (h : setting.disk.lexical a.directory = setting.disk.lexical b.directory) (spec : String) :
    setting.resolved? ⟨spec, some a⟩ = setting.resolved? ⟨spec, some b⟩ := by
  show ((setting.resolver.resolve setting.disk spec (some a)).toOption).map (·.path) =
    ((setting.resolver.resolve setting.disk spec (some b)).toOption).map (·.path)
  rcases hname : Specifier.isModuleName spec with _ | _
  · rw [Resolver.resolve_of_malformed hname, Resolver.resolve_of_malformed hname]
  · by_cases hrelative : (Specifier.parse spec).isRelative = true
    · rw [Resolver.resolve_of_relative hname hrelative,
        Resolver.resolve_of_relative hname hrelative, Resolver.path_answer, Resolver.path_answer]
      exact Resolver.firstFile_congr ha hb h hname setting.resolver
    · rw [Resolver.resolve_of_qualified hname hrelative,
        Resolver.resolve_of_qualified hname hrelative, Resolver.path_answer, Resolver.path_answer]

/-- The search directories lead to regular files. -/
theorem isFile_of_resolved {r : Request} {file : Path} (found : setting.resolved? r = some file) :
    ∃ loc, setting.disk.locate .reach file = .ok loc ∧
      (setting.disk.content? loc).isSome = true := by
  obtain ⟨_, hprobe⟩ := exists_probe_of_resolved found
  obtain ⟨loc, hlocate, hregular, rfl⟩ := FileSystem.probe_eq_some.1 hprobe
  exact ⟨loc, FileSystem.locate_toPath (FileSystem.reached_of_locate hlocate), hregular⟩

/-- A file that the search directories lead to in one request and the templates in another is the
same script both times, but asks as different files: with its canonical path, and with the path that
the template makes. A relative specifier in it is kept under the same key only if these are one
path, both being texts. It leads to the same file if the texts of the two paths have the file in the
same directory, as they do on a file system without links. -/
theorem asks_by_loader (setting : Setting) {r₁ r₂ : Request} {file p : Path}
    (found : setting.resolved? r₁ = some file) (missing : setting.resolved? r₂ = none)
    (searched : setting.searchPath r₂.specifier = some p)
    (same : setting.disk.canonicalize p = .ok file) :
    setting.disk.readFile file = setting.disk.readFile p ∧
    (∀ s q t, setting.LoadPasses r₁ s ⟨some q, t⟩ → q.origin = some file) ∧
    (∀ s q t, setting.LoadPasses r₂ s ⟨some q, t⟩ → q.origin = some p) ∧
    (∀ spec, Specifier.isRelative spec = true →
      (Request.key ⟨spec, some file⟩ = Request.key ⟨spec, some p⟩ ↔ file = p)) ∧
    (setting.disk.lexical file.directory = setting.disk.lexical p.directory →
      ∀ spec, setting.resolved? ⟨spec, some file⟩ = setting.resolved? ⟨spec, some p⟩) ∧
    (setting.disk.Linkless →
      setting.disk.lexical file.directory = setting.disk.lexical p.directory) := by
  obtain ⟨loc, hlocate, rfl⟩ := FileSystem.canonicalize_eq_ok.1 same
  have hfile := FileSystem.locate_toPath (FileSystem.reached_of_locate hlocate)
  refine ⟨?_, fun s q t h => ?_, fun s q t h => ?_, fun spec hrelative => ?_, fun hdir spec => ?_,
    fun hlinkless => ?_⟩
  · unfold FileSystem.readFile
    rw [hfile, hlocate]
  · cases h with
    | resolved found' inner =>
      obtain ⟨_, _, _, _, _, _, horigin⟩ := inner.asks
      rw [found] at found'
      cases found'
      exact horigin
    | own missing' =>
      rw [found] at missing'
      cases missing'
  · cases h with
    | resolved found' =>
      rw [missing] at found'
      cases found'
    | own _ inner =>
      cases inner with
      | hosted _ searched' inner =>
        obtain ⟨_, _, _, _, _, _, horigin⟩ := inner.asks
        rw [searched] at searched'
        cases searched'
        exact horigin
  · exact Request.key_eq_iff_of_origin rfl hrelative rfl rfl
  · obtain ⟨_, _, start, hstart, _⟩ := FileSystem.locate_eq_ok.1 hlocate
    obtain ⟨_, _, start', hstart', _⟩ := FileSystem.locate_eq_ok.1 hfile
    exact resolved?_congr hstart' hstart hdir spec
  · obtain ⟨loc', hlocate', hregular⟩ := isFile_of_resolved found
    rw [hfile] at hlocate'
    cases hlocate'
    rw [hlinkless.lexical_directory hfile hregular, hlinkless.lexical_directory hlocate hregular]

/-- A file that is opened by an absolute and by a relative path finds the same module twice, under
two keys. -/
theorem relative_template_resolves :
    let disk := FileSystem.ofEntries ⟨"/"⟩
      [(⟨"/lib/sub/f.t"⟩, .file (.text "return require \".m\"\n")),
        (⟨"/lib/m.t"⟩, .file (.text "return 1\n"))]
    let setting : Setting := ⟨disk, ⟨[⟨"/lib"⟩], "t"⟩, ["./lib/?.t"], .checked⟩
    let file : Path := ⟨"/lib/sub/f.t"⟩
    let p : Path := ⟨"./lib/sub/f.t"⟩
    setting.resolved? ⟨"sub.f", some ⟨"/main.t"⟩⟩ = some file ∧
      setting.resolved? ⟨"sub.f", none⟩ = none ∧ setting.searchPath "sub.f" = some p ∧
      setting.resolved? ⟨".m", some file⟩ = some ⟨"/lib/m.t"⟩ ∧
      setting.resolved? ⟨".m", some file⟩ = setting.resolved? ⟨".m", some p⟩ ∧
      Request.key ⟨".m", some file⟩ ≠ Request.key ⟨".m", some p⟩ := by
  intro disk setting file p
  have found : setting.resolved? ⟨"sub.f", some ⟨"/main.t"⟩⟩ = some file := by decide +kernel
  have searched : setting.searchPath (Request.mk "sub.f" none).specifier = some p := by
    decide +kernel
  have hprobe : setting.disk.probe p = some file := by decide +kernel
  have same : setting.disk.canonicalize p = .ok file := by
    obtain ⟨loc, hlocate, _, hfile⟩ := FileSystem.probe_eq_some.1 hprobe
    exact FileSystem.canonicalize_eq_ok.2 ⟨loc, hlocate, hfile⟩
  have hdir : setting.disk.lexical file.directory = setting.disk.lexical p.directory := by
    decide +kernel
  obtain ⟨_, _, _, hkey, hresolved, _⟩ := asks_by_loader setting found rfl searched same
  have hne : file ≠ p := by decide
  exact ⟨found, rfl, searched, by decide +kernel, hresolved hdir ".m",
    fun h => hne ((hkey ".m" rfl).1 h)⟩

/-- A file that is opened through a link to its directory asks next to the link. It finds another
module there than next to the file itself. -/
theorem import_next_to_link :
    let disk := FileSystem.ofEntries ⟨"/"⟩
      [(⟨"/real/sub/lib.t"⟩, .file (.text "return require \".m\"\n")),
        (⟨"/real/m.t"⟩, .file (.text "return 1\n")), (⟨"/m.t"⟩, .file (.text "return 2\n")),
        (⟨"/link"⟩, .link ⟨"/real/sub"⟩)]
    let setting : Setting := ⟨disk, ⟨[⟨"/real"⟩], "t"⟩, Setting.defaultTemplates, .checked⟩
    let file : Path := ⟨"/real/sub/lib.t"⟩
    let p : Path := ⟨"./link/lib.t"⟩
    setting.resolved? ⟨"sub.lib", some ⟨"/main.t"⟩⟩ = some file ∧
      setting.resolved? ⟨"link.lib", none⟩ = none ∧ setting.searchPath "link.lib" = some p ∧
      disk.probe p = some file ∧ file ≠ p ∧
      Request.key ⟨".m", some file⟩ ≠ Request.key ⟨".m", some p⟩ ∧
      setting.resolved? ⟨".m", some file⟩ = some ⟨"/real/m.t"⟩ ∧
      setting.resolved? ⟨".m", some p⟩ = some ⟨"/m.t"⟩ := by
  intro disk setting file p
  exact ⟨by decide +kernel, rfl, by decide +kernel, by decide +kernel, by decide, by decide,
    by decide +kernel, by decide +kernel⟩

end Setting

end ScriptBuild
