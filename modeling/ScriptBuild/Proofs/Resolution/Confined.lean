import ScriptBuild.Evaluation.Setting
import ScriptBuild.Proofs.FileSystem.Lexical
import ScriptBuild.Proofs.Resolution.Candidates

/-!
# Lookups stay below their directories

A specifier turns into paths in two ways: a name that does not climb is joined to each of the search
directories, and any text at all is put into the templates. Main statements: `components_file` says
what a name adds to a directory, `pieces_expand` what a specifier makes of the default templates,
`locate_below` where a path without `..` leads, and `lookups_confined` that neither way leaves the
directory that it starts from.
-/

namespace ScriptBuild

namespace Path

variable {p q : Path} {text : String} {c : Char}

/-- A piece with another character than a dot is entered as a name. -/
theorem enters_of_mem (h : c ∈ text.toList) (hc : c ≠ '.') :
    isVoid text = false ∧ text ≠ ".." := by
  have hne : text ≠ "" ∧ text ≠ "." ∧ text ≠ ".." := by
    refine ⟨?_, ?_, ?_⟩
    all_goals
      rintro rfl
      simp [hc] at h
  simp [isVoid, hne]

theorem map_ofPiece {names : List String} (h : ∀ name ∈ names, isVoid name = false ∧ name ≠ "..") :
    names.map Component.ofPiece = names.map .name := by
  apply List.map_congr_left
  intro name hname
  obtain ⟨hvoid, hup⟩ := h name hname
  have hcurrent : name ≠ "." := by
    rintro rfl
    exact absurd hvoid (by decide)
  rw [Component.ofPiece, if_neg hcurrent, if_neg hup]

/-- A climb is a piece that climbs. -/
theorem up_mem_map_ofPiece {pieces : List String} :
    .up ∈ (pieces.filter (! isVoid ·)).map Component.ofPiece ↔ ".." ∈ pieces := by
  simp only [List.mem_map, List.mem_filter]
  constructor
  · rintro ⟨piece, ⟨hpiece, _⟩, hup⟩
    unfold Component.ofPiece at hup
    split at hup
    · cases hup
    · split at hup
      · next heq => rwa [← heq]
      · cases hup
  · intro h
    exact ⟨"..", ⟨h, by decide⟩, rfl⟩

theorem components_eq {first : String} {body : List String} (hp : p.pieces = first :: body) :
    p.components =
      (if p.isAbsolute then [.root] else if first = "" then [] else [.ofPiece first]) ++
        (body.filter (! isVoid ·)).map .ofPiece := by
  rw [components, hp]

/-- A relative path goes on with its own steps, if it does not begin with a void one. -/
theorem components_join {first : String} {more : List String} (hq : q.pieces = first :: more)
    (hfirst : isVoid first = false) (p : Path) :
    (p.join q).components =
      p.components ++ (q.pieces.filter (! isVoid ·)).map .ofPiece := by
  have hne : first ≠ "" := by
    rintro rfl
    exact absurd hfirst (by decide)
  have hrelative := (relative_of_pieces hq hne).1
  rw [hq]
  obtain ⟨before, last, hp⟩ := p.exists_pieces
  have hjoin := pieces_join hp hrelative
  have hstart : (p.join q).isAbsolute = p.isAbsolute := isAbsolute_join_eq hrelative
  rcases before with _ | ⟨start, body⟩
  · by_cases hempty : last = ""
    · rw [if_pos hempty, hq] at hjoin
      have habsolute : p.isAbsolute = false := by
        rw [← Bool.not_eq_true, isAbsolute_iff, hp]
        simp
      rw [components_eq hjoin, components_eq hp, hstart, habsolute]
      simp [hempty, hne, hfirst]
    · rw [if_neg hempty, hq] at hjoin
      rw [components_eq hjoin, components_eq hp, hstart]
      simp
  · rw [List.cons_append] at hp
    by_cases hempty : last = ""
    · rw [if_pos hempty, hq, List.cons_append] at hjoin
      rw [components_eq hjoin, components_eq hp, hstart, hempty]
      simp [isVoid]
    · rw [if_neg hempty, hq, List.cons_append, List.cons_append] at hjoin
      rw [components_eq hjoin, components_eq hp, hstart]
      simp only [List.filter_append, List.map_append, List.append_assoc]

end Path

namespace ModuleName

variable {m : ModuleName}

/-- The pieces of a module file: its names, the last with the extension behind it, and what the
extension has behind a slash. -/
theorem pieces_file (h : m.isProper = true) (extension : String) :
    ∃ names, names ≠ [] ∧ (∀ name ∈ names, Path.isVoid name = false ∧ name ≠ "..") ∧
      (m.file extension).pieces = names ++ (Text.pieces '/' extension).tail := by
  obtain ⟨_, hsegments⟩ := isProper_iff.1 h
  obtain ⟨above, last, hlast, hsegment⟩ := exists_last h
  obtain ⟨first, more, hextension⟩ :=
    List.exists_cons_of_ne_nil (Path.pieces_ne_nil ⟨extension⟩)
  have habove : ∀ name ∈ above, isSegment name = true :=
    fun name hname => hsegments name (hlast ▸ List.mem_append_left _ hname)
  refine ⟨above ++ [last ++ "." ++ first], by simp, fun name hname => ?_, ?_⟩
  · rcases List.mem_append.1 hname with hname | hname
    · exact (isPiece_of_isSegment (habove name hname)).2
    · rw [List.mem_singleton.1 hname]
      obtain ⟨c, cs, hcs, hc⟩ := exists_head_of_isSegment hsegment
      exact Path.enters_of_mem (by simp [hcs]) hc
  · have hslash : ∀ name ∈ above, '/' ∉ name.toList :=
      fun name hname => (isPiece_of_isSegment (habove name hname)).1.no_slash
    have hdotted : '/' ∉ (last ++ ".").toList := by
      simpa using (isPiece_of_isSegment hsegment).1.no_slash
    have htail : Path.pieces ⟨last ++ ("." ++ extension)⟩ = (last ++ "." ++ first) :: more := by
      rw [← String.append_assoc]
      exact Text.pieces_append_of_not_mem hdotted hextension
    rw [file, hlast, String.append_assoc, Path.pieces_intercalate_append hslash, htail,
      show Text.pieces '/' extension = first :: more from hextension]
    simp

/-- A module file is below a directory: what its path adds are names, and what the extension has
behind a slash. -/
theorem components_file (h : m.isProper = true) (extension : String) (d : Path) :
    ∃ names, names ≠ [] ∧ (∀ name ∈ names, Path.isVoid name = false ∧ name ≠ "..") ∧
      (d.join (m.file extension)).components =
        d.components ++ (names.map .name ++
          ((Text.pieces '/' extension).tail.filter (! Path.isVoid ·)).map .ofPiece) := by
  obtain ⟨names, hne, henters, hpieces⟩ := pieces_file h extension
  obtain ⟨first, more, rfl⟩ := List.exists_cons_of_ne_nil hne
  have hkept : (first :: more).filter (! Path.isVoid ·) = first :: more := by
    apply List.filter_eq_self.2
    intro name hname
    simp [(henters name hname).1]
  refine ⟨first :: more, hne, henters, ?_⟩
  rw [Path.components_join hpieces (henters first List.mem_cons_self).1, hpieces,
    List.filter_append, hkept, List.map_append, Path.map_ofPiece henters]

end ModuleName

namespace FileSystem

variable {fs : FileSystem} {p : Path} {start loc : Location}

/-- Names are entered one below the other, up to the first link. -/
theorem enter_below {follow : Location → List String → Except OsError Location}
    {pieces : List String} (hup : ".." ∉ pieces)
    (h : fs.enter .reach follow start pieces = .ok loc) :
    loc = start ++ pieces.filter (! Path.isVoid ·) ∨
      ∃ way target, way <+: pieces.filter (! Path.isVoid ·) ∧
        fs.lookup? (start ++ way) = some (.link target) := by
  induction pieces generalizing start with
  | nil =>
    cases h
    exact .inl (List.append_nil _).symm
  | cons piece pieces ih =>
    rw [List.mem_cons, not_or] at hup
    obtain ⟨hpiece, hrest⟩ := hup
    rw [enter] at h
    split at h
    · cases h
    · split at h
      · next hvoid =>
        rw [List.filter_cons_of_neg (by simp [hvoid])]
        exact ih hrest h
      · next hvoid =>
        rw [List.filter_cons_of_pos (by simp [hvoid])]
        rw [if_neg (Ne.symm hpiece)] at h
        split at h
        · cases h
        · split at h
          · next hnone => cases h
          · next target found =>
            refine .inr ⟨[piece], target, ?_, found⟩
            simp
          · rcases ih hrest h with hloc | ⟨way, target, hway, found⟩
            · exact .inl (hloc.trans (List.append_assoc _ _ _))
            · refine .inr ⟨piece :: way, target, ?_, ?_⟩
              · simpa using hway
              · rwa [List.append_assoc] at found

/-- A relative path without `..` leads below the working directory, or there is a link on its
way. -/
theorem locate_below (hrelative : p.isAbsolute = false) (hup : ".." ∉ p.pieces)
    (h : fs.locate .reach p = .ok loc) :
    ∃ cwd, fs.currentDirectory = .ok cwd ∧
      (loc = cwd ++ p.pieces.filter (! Path.isVoid ·) ∨
        ∃ way target, way <+: p.pieces.filter (! Path.isVoid ·) ∧
          fs.lookup? (cwd ++ way) = some (.link target)) := by
  obtain ⟨_, _, cwd, hcwd, hwalk⟩ := locate_eq_ok.1 h
  rw [startOf, hrelative, if_neg Bool.false_ne_true] at hcwd
  exact ⟨cwd, hcwd, enter_below hup hwalk⟩

end FileSystem

namespace Setting

variable {template : String}

/-- The pieces of a path under the default templates: there is no dot in those that come from the
specifier, and a file is entered at the end. -/
theorem pieces_expand (h : template ∈ defaultTemplates) (spec : String) :
    ∃ between final, (expand template spec).pieces = "." :: (between ++ [final]) ∧
      (∀ piece ∈ between, '.' ∉ piece.toList) ∧ 't' ∈ final.toList := by
  let module : Path := ⟨String.ofList (spec.toList.map fun c => if c = '.' then '/' else c)⟩
  have hcurrent : Path.pieces ⟨"."⟩ = ["."] := by decide
  have hdots : ∀ piece ∈ module.pieces, '.' ∉ piece.toList := by
    intro piece hpiece hdot
    have hin := Text.mem_of_mem_pieces hpiece hdot
    rw [String.toList_ofList, List.mem_map] at hin
    obtain ⟨c, _, hc⟩ := hin
    split at hc
    · cases hc
    · next hne => exact hne hc
  simp only [defaultTemplates, List.mem_cons, List.not_mem_nil, or_false] at h
  rcases h with rfl | rfl
  · obtain ⟨before, last, hmodule⟩ := module.exists_pieces
    have hlast : '/' ∉ (last ++ ".t").toList := by
      have := Path.not_mem_of_mem_pieces (hmodule ▸ List.mem_append_right _ List.mem_cons_self)
      simpa using this
    have htext : expand "./?.t" spec = ⟨"." ++ "/" ++ (module.text ++ ".t")⟩ := by
      simp [expand, Text.substitute, module, ← String.toList_inj]
    refine ⟨before, last ++ ".t", ?_, fun piece hpiece => ?_, by simp⟩
    · rw [htext, Path.pieces_slash, hcurrent, Path.pieces_append hmodule,
        Path.pieces_of_not_mem hlast, List.singleton_append]
    · exact hdots piece (hmodule ▸ List.mem_append_left _ hpiece)
  · have hinit : Path.pieces ⟨"init.t"⟩ = ["init.t"] := by decide
    have htext : expand "./?/init.t" spec = ⟨"." ++ "/" ++ (module.text ++ "/" ++ "init.t")⟩ := by
      simp [expand, Text.substitute, module, ← String.toList_inj]
    refine ⟨module.pieces, "init.t", ?_, hdots, by decide⟩
    rw [htext, Path.pieces_slash, Path.pieces_slash, hcurrent, hinit, List.singleton_append]

/-- A path under the default templates enters names from the working directory. -/
theorem components_expand (h : template ∈ defaultTemplates) (spec : String) :
    (expand template spec).isAbsolute = false ∧ ".." ∉ (expand template spec).pieces ∧
      (expand template spec).pieces.filter (! Path.isVoid ·) ≠ [] ∧
      (expand template spec).components =
        .current :: ((expand template spec).pieces.filter (! Path.isVoid ·)).map .name := by
  obtain ⟨between, final, hpieces, hbetween, hfinal⟩ := pieces_expand h spec
  obtain ⟨hvoid, hfinalup⟩ := Path.enters_of_mem hfinal (by decide)
  have hup : ".." ∉ between ++ [final] := by
    rw [List.mem_append, List.mem_singleton, not_or]
    exact ⟨fun hin => hbetween ".." hin (by decide), Ne.symm hfinalup⟩
  have hrelative := (Path.relative_of_pieces hpieces (by decide)).1
  have hkept : (expand template spec).pieces.filter (! Path.isVoid ·) =
      (between ++ [final]).filter (! Path.isVoid ·) := by
    rw [hpieces, List.filter_cons_of_neg (by decide)]
  have henters : ∀ name ∈ (between ++ [final]).filter (! Path.isVoid ·),
      Path.isVoid name = false ∧ name ≠ ".." := by
    intro name hname
    obtain ⟨hin, hsays⟩ := List.mem_filter.1 hname
    exact ⟨by simpa using hsays, fun heq => hup (heq ▸ hin)⟩
  refine ⟨hrelative, ?_, ?_, ?_⟩
  · rw [hpieces, List.mem_cons, not_or]
    exact ⟨by decide, hup⟩
  · rw [hkept]
    simp [hvoid]
  · rw [hkept, Path.components_eq hpieces, hrelative, Path.map_ofPiece henters]
    rfl

end Setting

namespace Resolver

variable {r : Resolver} {fs : FileSystem} {spec : String} {origin : Option Path} {c : Candidate}

/-- The candidates that a resolution reports, whatever comes of them. -/
def triedIn : Except ResolutionError Resolved → List Candidate
  | .ok found => found.tried
  | .error e => e.tried

theorem triedIn_answer (spec : String) (origin found : Option Path) (tried : List Candidate) :
    triedIn (answer spec origin found tried) = tried := by
  rcases found with _ | path <;> rfl

/-- The candidates of a specifier that does not climb are module files in search directories. -/
theorem exists_of_mem_triedIn (hqualified : Specifier.isRelative spec = false)
    (hc : c ∈ triedIn (r.resolve fs spec origin)) :
    ∃ m : ModuleName, m.isProper = true ∧
      ∃ d ∈ r.searchDirectories, c.path = d.join (m.file r.extension) ∧ c.base = .search d := by
  rw [← Specifier.isRelative_iff] at hqualified
  rcases hname : Specifier.isModuleName spec with _ | _
  · rw [resolve_of_malformed hname] at hc
    exact absurd hc List.not_mem_nil
  · have hproper := Specifier.isProper_parse hname
    have hclimbs : (Specifier.parse spec).climbs = 0 := by
      simpa [ModuleName.isRelative] using hqualified
    rw [resolve_of_qualified hname (by simp [hqualified]), triedIn_answer] at hc
    have hsearched := (firstFile_tried fs (r.searchCandidates (Specifier.parse spec))).subset hc
    rw [searchCandidates_eq hproper hclimbs, List.mem_flatMap] at hsearched
    obtain ⟨d, hd, hfiles⟩ := hsearched
    simp only [filesIn, List.mem_cons, List.not_mem_nil, or_false] at hfiles
    rcases hfiles with h | h
    · exact ⟨Specifier.parse spec, hproper, d, hd, by rw [h], by rw [h]⟩
    · exact ⟨(Specifier.parse spec).init, ModuleName.isProper_init hproper, d, hd, by rw [h],
        by rw [h]⟩

end Resolver

/-- No specifier leads out of the directories that it is looked up in. A candidate of one that does
not climb is below a search directory: its path takes more steps than that of the directory, and
they climb only if the file extension does, behind a slash; with no slash in the extension they all
enter names. Whatever the specifier is, the paths under the default templates, one of which the
loader reads, are relative and do not climb. They enter names from the working directory, and lead
to what these names say unless there is a link on that way. -/
theorem lookups_confined (r : Resolver) (disk : FileSystem) (spec : String) :
    let setting : Setting := ⟨disk, r, Setting.defaultTemplates, .checked⟩
    (Specifier.isRelative spec = false →
      ∀ origin, ∀ c ∈ Resolver.triedIn (r.resolve disk spec origin),
        ∃ d ∈ r.searchDirectories, c.base = .search d ∧
          ∃ added, c.path.components = d.components ++ added ∧ added ≠ [] ∧
            (.up ∈ added ↔ ".." ∈ (Text.pieces '/' r.extension).tail) ∧
            ('/' ∉ r.extension.toList →
              ∀ step ∈ added, ∃ name, step = .name name ∧ name ≠ "..")) ∧
    (∀ p, setting.searchPath spec = some p → p ∈ setting.templateCandidates spec) ∧
    ∀ p ∈ setting.templateCandidates spec,
      p.isAbsolute = false ∧ .up ∉ p.components ∧ ".." ∉ p.pieces ∧
      ∃ names, names ≠ [] ∧ p.components = .current :: names.map .name ∧
        ∀ loc, disk.locate .reach p = .ok loc →
          ∃ cwd, disk.currentDirectory = .ok cwd ∧
            (loc = cwd ++ names ∨
              ∃ way target, way <+: names ∧ disk.lookup? (cwd ++ way) = some (.link target)) := by
  intro setting
  refine ⟨fun hqualified origin c hc => ?_, fun p => List.mem_of_find?_eq_some, fun p hp => ?_⟩
  · obtain ⟨m, hproper, d, hd, hpath, hbase⟩ := Resolver.exists_of_mem_triedIn hqualified hc
    obtain ⟨names, hne, henters, hcomponents⟩ := m.components_file hproper r.extension d
    refine ⟨d, hd, hbase, _, hpath ▸ hcomponents, by simp [hne], ?_, fun hslash => ?_⟩
    · rw [List.mem_append, Path.up_mem_map_ofPiece]
      simp
    · have htail : Text.pieces '/' r.extension = [r.extension] := Path.pieces_of_not_mem hslash
      intro step hstep
      simp only [htail, List.tail_cons, List.filter_nil, List.map_nil, List.append_nil,
        List.mem_map] at hstep
      obtain ⟨name, hname, rfl⟩ := hstep
      exact ⟨name, rfl, (henters name hname).2⟩
  · obtain ⟨template, htemplate, rfl⟩ := Setting.mem_templateCandidates.1 hp
    obtain ⟨hrelative, hup, hne, hcomponents⟩ := Setting.components_expand htemplate spec
    refine ⟨hrelative, by simp [hcomponents], hup, _, hne, hcomponents, fun loc hlocate => ?_⟩
    exact FileSystem.locate_below hrelative hup hlocate

/-- A nested name is looked up below the search directory, as a file and as a package. A text that
climbs twice is looked up below the working directory all the same, where a file of that name stands,
and not the one that the text leads to. -/
theorem climbing_text_kept_below :
    let r : Resolver := { searchDirectories := [⟨"/lib"⟩] }
    let disk := FileSystem.ofEntries ⟨"/home/work"⟩
      [(⟨"/etc/x.t"⟩, .file (.text "")), (⟨"/home/work/etc/x.t"⟩, .file (.text ""))]
    let setting : Setting := ⟨disk, r, Setting.defaultTemplates, .checked⟩
    let tried := Resolver.triedIn (r.resolve disk "a.b" none)
    (tried.map Candidate.path = [⟨"/lib/a/b.t"⟩, ⟨"/lib/a/b/init.t"⟩] ∧
      ∀ c ∈ tried, ∃ added, c.path.components = [.root, .name "lib"] ++ added ∧
        ∀ step ∈ added, ∃ name, step = .name name ∧ name ≠ "..") ∧
    ∃ p, setting.searchPath "../../etc/x" = some p ∧ .up ∉ p.components ∧
      disk.locate .reach p = .ok ["home", "work", "etc", "x.t"] := by
  intro r disk setting tried
  obtain ⟨hnamed, _, _⟩ := lookups_confined r disk "a.b"
  obtain ⟨_, hread, hconfined⟩ := lookups_confined r disk "../../etc/x"
  have hfound : setting.searchPath "../../etc/x" = some ⟨".///////etc/x.t"⟩ := by decide +kernel
  refine ⟨⟨by decide +kernel, fun c hc => ?_⟩, _, hfound, ?_, by decide +kernel⟩
  · obtain ⟨d, hd, _, added, hadded, _, _, hnames⟩ := hnamed (by decide) none c hc
    rw [List.mem_singleton.1 hd] at hadded
    exact ⟨added, hadded, hnames (by decide)⟩
  · exact (hconfined _ (hread _ hfound)).2.1

end ScriptBuild
