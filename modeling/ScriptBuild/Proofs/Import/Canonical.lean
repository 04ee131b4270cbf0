import ScriptBuild.Proofs.Import.Nesting
import ScriptBuild.Proofs.Import.Strategy

/-!
# Records are canonical

A file has one canonical path, and whatever running scripts records is the canonical path of a
regular file: the search directories, the second search for a module of the runtime and the headers
all follow a path to its end first. Main statements: `Within.canonical` says so of every state that
nested loads pass through, and `getLast?_of_require` that the record of a new module hangs only on
where the path leads by which it was reached.
-/

namespace ScriptBuild

namespace FileSystem

variable {fs : FileSystem} {p q : Path}

/-- The path is the canonical one of a regular file. -/
structure IsCanonicalFile (fs : FileSystem) (p : Path) : Prop where
  isAbsolute : p.isAbsolute = true
  isFile : fs.isFile p = true
  canonical : fs.canonicalize p = .ok p

/-- The canonical paths of regular files are the paths of the places at which one stands. -/
theorem isCanonicalFile_iff :
    fs.IsCanonicalFile p ↔
      ∃ loc, fs.Reached loc ∧ (fs.content? loc).isSome = true ∧ loc.toPath = p := by
  constructor
  · rintro ⟨_, hfile, hcanonical⟩
    obtain ⟨loc, hloc, hpath⟩ := canonicalize_eq_ok.1 hcanonical
    rw [isFile, hloc] at hfile
    exact ⟨loc, reached_of_locate hloc, hfile, hpath⟩
  · rintro ⟨loc, hreached, hcontent, rfl⟩
    have hloc := locate_toPath hreached
    refine ⟨loc.toPath_isAbsolute, ?_, canonicalize_eq_ok.2 ⟨loc, hloc, rfl⟩⟩
    rw [isFile, hloc]
    exact hcontent

theorem isCanonicalFile_of_probe (h : fs.probe p = some q) : fs.IsCanonicalFile q := by
  obtain ⟨loc, hloc, hcontent, hpath⟩ := probe_eq_some.1 h
  exact isCanonicalFile_iff.2 ⟨loc, reached_of_locate hloc, hcontent, hpath⟩

theorem IsText.isCanonicalFile (h : fs.IsText p) : fs.IsCanonicalFile p := by
  obtain ⟨loc, source, hread, hpath⟩ := h
  obtain ⟨hloc, htext⟩ := readFile_eq_ok.1 hread
  exact isCanonicalFile_iff.2 ⟨loc, reached_of_locate hloc, by rw [htext]; rfl, hpath⟩

/-- No file has two canonical paths. -/
theorem IsCanonicalFile.eq_of_locate (hp : fs.IsCanonicalFile p) (hq : fs.IsCanonicalFile q)
    (h : fs.locate .reach p = fs.locate .reach q) : p = q := by
  have hcanonical := hp.canonical
  rw [canonicalize, h, ← canonicalize, hq.canonical] at hcanonical
  exact (Except.ok.inj hcanonical).symm

end FileSystem

namespace Setting

variable {setting : Setting} {r : Request} {s t : State} {m : Moment} {file : Path}

theorem isCanonicalFile_of_resolved (found : setting.resolved? r = some file) :
    setting.disk.IsCanonicalFile file := by
  obtain ⟨p, hprobe⟩ := exists_probe_of_resolved found
  exact FileSystem.isCanonicalFile_of_probe hprobe

/-- The second search for a module of the runtime follows the path that the first one found. -/
theorem templateFile?_eq_some {specifier : String} :
    setting.templateFile? specifier = some file ↔
      ∃ p, setting.searchPath specifier = some p ∧ setting.disk.probe p = some file := by
  have isFile : ∀ p, setting.searchPath specifier = some p → setting.disk.isFile p = true :=
    fun p hp => (List.find?_eq_some_iff_append.1 hp).1
  rw [templateFile?, ownFile?, Option.bind_eq_some_iff]
  refine exists_congr fun p => and_congr_right fun hp => ?_
  rw [FileSystem.probe_eq_some_iff, and_iff_right (isFile p hp)]
  cases setting.disk.canonicalize p <;> simp [Except.toOption]

/-- Whatever file is recorded with a module, it is recorded by its canonical path. -/
theorem isCanonicalFile_of_recordedFile? {history : List Event} {source : ModuleSource}
    (h : setting.Provides r history source)
    (recorded : setting.recordedFile? source r.specifier = some file) :
    setting.disk.IsCanonicalFile file := by
  cases h with
  | resolved found =>
    cases recorded
    exact isCanonicalFile_of_resolved found
  | hosted | builtIn =>
    obtain ⟨p, _, hprobe⟩ := templateFile?_eq_some.1 recorded
    exact FileSystem.isCanonicalFile_of_probe hprobe

/-- What was recorded, and what modules in the cache were loaded from, are canonical paths of regular
files. -/
structure Canonical (setting : Setting) (s : State) : Prop where
  recorded : ∀ p ∈ s.dependencies, setting.disk.IsCanonicalFile p
  cached : ∀ m ∈ s.cache, ∀ p, m.source = .resolved p → setting.disk.IsCanonicalFile p

theorem canonical_empty (setting : Setting) (cFlags linkFlags : List String) :
    setting.Canonical (State.empty.inject cFlags linkFlags) :=
  ⟨fun _ hp => absurd hp List.not_mem_nil, fun _ hm => absurd hm List.not_mem_nil⟩

theorem Canonical.congr (hs : setting.Canonical s) (hrecorded : t.dependencies = s.dependencies)
    (hcache : t.cache = s.cache) : setting.Canonical t :=
  ⟨hrecorded ▸ hs.recorded, hcache ▸ hs.cached⟩

theorem Canonical.record (hs : setting.Canonical s) (hfile : setting.disk.IsCanonicalFile file) :
    setting.Canonical (s.record file) where
  recorded p hp := by
    rcases List.mem_append.1 hp with hp | hp
    · exact hs.recorded p hp
    · rw [List.mem_singleton.1 hp]
      exact hfile
  cached := hs.cached

/-- Running scripts records canonical paths only. -/
theorem Evolves.canonical (h : setting.Evolves s t) (hs : setting.Canonical s) :
    setting.Canonical t := by
  induction h with
  | refl => exact hs
  | counted | exported | linked | read | entered | left => exact hs.congr rfl rfl
  | trans _ _ ih₁ ih₂ => exact ih₂ (ih₁ hs)
  | @imported s files texts =>
    refine ⟨fun p hp => ?_, hs.cached⟩
    rcases List.mem_append.1 hp with hp | hp
    · exact hs.recorded p hp
    · exact (texts p hp).isCanonicalFile
  | abandoned _ _ _ ih => exact (ih (hs.congr rfl rfl)).congr rfl rfl
  | @completed s t r v source _ _ _ origin ih =>
    have hbody := ih (hs.congr rfl rfl)
    refine ⟨fun p hp => ?_, fun m hm p hp => ?_⟩
    · rcases List.mem_append.1 hp with hp | hp
      · exact hbody.recorded p hp
      · exact isCanonicalFile_of_recordedFile? origin (Option.mem_toList.1 hp)
    · rcases List.mem_append.1 hm with hm | hm
      · exact hbody.cached m hm p hp
      · rw [List.mem_singleton.1 hm] at hp
        cases hp
        exact isCanonicalFile_of_recordedFile? origin rfl

/-- So it is at every moment of a load, also between the record of its file and its end. -/
theorem LoadPasses.canonical (h : setting.LoadPasses r s m) (hs : setting.Canonical s) :
    setting.Canonical m.state := by
  cases h with
  | resolved found inner => exact ((Evolves.entered s found).trans inner.evolves).canonical hs
  | own _ inner => exact inner.evolves.canonical hs
  | ended =>
    rcases hload : setting.loadModule (setting.loader setting.requireModule) r s with
      ⟨e | ⟨v, source⟩, u⟩
    · exact (Evolving.loadModule_error setting.evolves_requireModule hload).canonical hs
    · obtain ⟨t, hbody, origin, hu⟩ := Evolving.loadModule setting.evolves_requireModule hload
      have ht := hbody.canonical hs
      cases source with
      | resolved file =>
        show setting.Canonical u
        rw [hu]
        exact ht.record (isCanonicalFile_of_recordedFile? origin rfl)
      | runtime => exact hu ▸ ht

/-- So it is at every moment inside of nested loads. -/
theorem Within.canonical {top : Moment → Prop} (htop : ∀ m, top m → setting.Canonical m.state)
    {outer : List Request} (h : setting.Within top outer m) : setting.Canonical m.state := by
  induction h with
  | direct passed => exact htop _ passed
  | nested _ during ih => exact during.passes.canonical (ih.congr rfl rfl)

end Setting

end ScriptBuild
