import ScriptBuild.Proofs.Path.Pieces
import ScriptBuild.Resolution

/-!
# The grammar of specifiers

A specifier is some dots, one for each level to climb, and then segments with one dot between any
two of them. Main statements: `isModuleName_iff` says that the specifiers written so are those that
are accepted, `parse_spelling` that they are read back as what was written, and
`resolve_rejects_iff` that all others are rejected, and those that climb if no file asks, before any
file is looked at.
-/

namespace ScriptBuild

namespace ModuleName

/-- The character may stand in a segment of a specifier. -/
def isSegmentChar (c : Char) : Bool :=
  c.isAlphanum || c == '_' || c == '-'

/-- The text may be a segment of a specifier: one or more letters, digits, `_` and `-`. -/
def isSegment (text : String) : Bool :=
  text ≠ "" && text.toList.all isSegmentChar

/-- The name says something, in segments that a specifier may have. -/
def isProper (m : ModuleName) : Bool :=
  m.segments ≠ [] && m.segments.all isSegment

/-- The specifier that says a name: a dot for each level to climb, and the segments with a dot
between any two of them. -/
def spelling (m : ModuleName) : String :=
  String.ofList (List.replicate m.climbs '.') ++ ".".intercalate m.segments

variable {m : ModuleName} {text : String}

theorem isProper_iff :
    m.isProper = true ↔ m.segments ≠ [] ∧ ∀ text ∈ m.segments, isSegment text = true := by
  simp [isProper]

theorem ne_dot_of_isSegmentChar {c : Char} (h : isSegmentChar c = true) : c ≠ '.' := by
  rintro rfl
  exact absurd h (by decide)

theorem isPlainChar_iff {c : Char} :
    Specifier.isPlainChar c = true ↔ c = '.' ∨ isSegmentChar c = true := by
  simp only [Specifier.isPlainChar, isSegmentChar, Bool.or_eq_true, beq_iff_eq]
  constructor
  · rintro (((h | h) | h) | h)
    · exact .inr (.inl (.inl h))
    · exact .inl h
    · exact .inr (.inl (.inr h))
    · exact .inr (.inr h)
  · rintro (h | (h | h) | h)
    · exact .inl (.inl (.inr h))
    · exact .inl (.inl (.inl h))
    · exact .inl (.inr h)
    · exact .inr h

theorem isSegment_iff :
    isSegment text = true ↔ text ≠ "" ∧ ∀ c ∈ text.toList, isSegmentChar c = true := by
  simp [isSegment]

theorem not_mem_of_isSegment (h : isSegment text = true) : '.' ∉ text.toList := fun hdot =>
  ne_dot_of_isSegmentChar ((isSegment_iff.1 h).2 '.' hdot) rfl

/-- A segment begins with a character that is no dot. -/
theorem exists_head_of_isSegment (h : isSegment text = true) :
    ∃ c cs, text.toList = c :: cs ∧ c ≠ '.' := by
  obtain ⟨hne, hchars⟩ := isSegment_iff.1 h
  obtain ⟨c, cs, hcs⟩ := List.exists_cons_of_ne_nil fun hnil => hne (String.toList_inj.1 hnil)
  exact ⟨c, cs, hcs, ne_dot_of_isSegmentChar (hchars c (hcs ▸ List.mem_cons_self))⟩

/-- A segment may be the name of a file or directory. -/
theorem isPiece_of_isSegment (h : isSegment text = true) :
    Path.IsPiece text ∧ Path.isVoid text = false ∧ text ≠ ".." := by
  obtain ⟨hne, hchars⟩ := isSegment_iff.1 h
  refine ⟨⟨hne, fun hslash => absurd (hchars '/' hslash) (by decide)⟩, ?_, ?_⟩
  · have hcurrent : text ≠ "." := by
      rintro rfl
      exact not_mem_of_isSegment h (by decide)
    simp [Path.isVoid, hne, hcurrent]
  · rintro rfl
    exact not_mem_of_isSegment h (by decide)

theorem toList_spelling (m : ModuleName) :
    m.spelling.toList =
      List.replicate m.climbs '.' ++ (".".intercalate m.segments).toList := by
  rw [spelling, String.toList_append, String.toList_ofList]

/-- The segments begin with a character that is no dot. -/
theorem head_segments (h : m.isProper = true) :
    ∃ c cs, (".".intercalate m.segments).toList = c :: cs ∧ c ≠ '.' := by
  obtain ⟨hne, hsegments⟩ := isProper_iff.1 h
  obtain ⟨first, more, hfirst⟩ := List.exists_cons_of_ne_nil hne
  obtain ⟨c, cs, hcs, hc⟩ :=
    exists_head_of_isSegment (hsegments first (hfirst ▸ List.mem_cons_self))
  rcases more with _ | ⟨second, more⟩
  · refine ⟨c, cs, ?_, hc⟩
    rw [hfirst, String.intercalate_singleton, hcs]
  · refine ⟨c, cs ++ (".".intercalate (second :: more)).toList.cons '.', ?_, hc⟩
    rw [hfirst, String.intercalate_cons_cons]
    simp [hcs]

end ModuleName

namespace Specifier

open ModuleName

variable {spec : String} {m : ModuleName}

/-- The specifier is a plain dotted name, with no name in it left empty. -/
def isModuleName (spec : String) : Bool :=
  isPlain spec && ! (parse spec).isEmpty

theorem not_isModuleName (spec : String) :
    (! isPlain spec || (parse spec).isEmpty) = ! isModuleName spec := by
  simp [isModuleName]

/-- What was written for a name is read as that name. -/
theorem parse_spelling (h : m.isProper = true) : parse m.spelling = m := by
  obtain ⟨hne, hsegments⟩ := isProper_iff.1 h
  obtain ⟨c, cs, hhead, hc⟩ := head_segments h
  have hdots : ∀ d ∈ List.replicate m.climbs '.', (d == '.') = true := by
    intro d hd
    rw [(List.mem_replicate.1 hd).2]
    rfl
  have htake : m.spelling.toList.takeWhile (· == '.') = List.replicate m.climbs '.' := by
    rw [toList_spelling, List.takeWhile_append_of_pos hdots, hhead,
      List.takeWhile_cons_of_neg (by simpa using hc), List.append_nil]
  have hdrop : m.spelling.toList.dropWhile (· == '.') =
      (".".intercalate m.segments).toList := by
    rw [toList_spelling, List.dropWhile_append_of_pos hdots, hhead,
      List.dropWhile_cons_of_neg (by simpa using hc)]
  have hpieces : Text.pieces '.' (".".intercalate m.segments) = m.segments :=
    Text.pieces_intercalate hne fun name hname => not_mem_of_isSegment (hsegments name hname)
  have hfilled : m.segments.contains "" = false := by
    rw [← Bool.not_eq_true, List.contains_iff_mem]
    intro hempty
    exact (isSegment_iff.1 (hsegments "" hempty)).1 rfl
  simp only [parse, htake, hdrop, String.ofList_toList, hpieces, hfilled, List.length_replicate,
    Bool.false_eq_true, if_false]

example : parse "..net.http" = ⟨2, ["net", "http"]⟩ := by decide +kernel

/-- What a specifier is read as is written so. -/
theorem spelling_parse (h : (parse spec).segments ≠ []) : (parse spec).spelling = spec := by
  have hsegments : (parse spec).segments =
      Text.pieces '.' (String.ofList (spec.toList.dropWhile (· == '.'))) := by
    unfold parse at h ⊢
    dsimp only at h ⊢
    split at h
    · exact absurd rfl h
    · next hfilled => rw [if_neg hfilled]
  have hdots : List.replicate (parse spec).climbs '.' = spec.toList.takeWhile (· == '.') := by
    refine (List.eq_replicate_iff.2 ⟨rfl, fun d hd => ?_⟩).symm
    simpa using List.all_eq_true.1 (List.all_takeWhile (l := spec.toList)) d hd
  have hrest := Text.intercalate_pieces '.' (String.ofList (spec.toList.dropWhile (· == '.')))
  rw [← hsegments] at hrest
  rw [← String.toList_inj, toList_spelling, hdots]
  show _ ++ ((String.ofList ['.']).intercalate (parse spec).segments).toList = _
  rw [hrest, String.toList_ofList, List.takeWhile_append_dropWhile]

/-- The segments of a plain specifier hold letters, digits, `_` and `-` only. -/
theorem isSegment_of_mem_segments {text : String} (hplain : isPlain spec = true)
    (h : text ∈ (parse spec).segments) : isSegment text = true := by
  unfold parse at h
  dsimp only at h
  split at h
  · cases h
  · next hfilled =>
    refine isSegment_iff.2 ⟨?_, fun c hc => ?_⟩
    · rintro rfl
      exact hfilled (List.contains_iff_mem.2 h)
    · have hin := Text.mem_of_mem_pieces h hc
      rw [String.toList_ofList] at hin
      have hspec : c ∈ spec.toList := (List.dropWhile_sublist _).subset hin
      have hchar := List.all_eq_true.1 (Bool.and_eq_true_iff.1 hplain).2 c hspec
      refine (isPlainChar_iff.1 hchar).resolve_left ?_
      rintro rfl
      exact Text.not_mem_of_mem_pieces h hc

theorem isProper_parse (h : isModuleName spec = true) : (parse spec).isProper = true := by
  simp only [isModuleName, Bool.and_eq_true, Bool.not_eq_true', ModuleName.isEmpty,
    List.isEmpty_eq_false_iff] at h
  exact isProper_iff.2 ⟨h.2, fun text => isSegment_of_mem_segments h.1⟩

theorem isModuleName_spelling (h : m.isProper = true) : isModuleName m.spelling = true := by
  obtain ⟨hne, hsegments⟩ := isProper_iff.1 h
  obtain ⟨c, cs, hhead, _⟩ := head_segments h
  have hfilled : m.spelling ≠ "" := by
    intro hempty
    have htext := m.toList_spelling
    rw [hempty, hhead] at htext
    simp at htext
  have hplain : m.spelling.toList.all isPlainChar = true := by
    refine List.all_eq_true.2 fun d hd => isPlainChar_iff.2 ?_
    by_cases hdot : d = '.'
    · exact .inl hdot
    · rw [toList_spelling, List.mem_append] at hd
      have hin := hd.resolve_left fun hdots => hdot (List.mem_replicate.1 hdots).2
      obtain ⟨text, htext, hchar⟩ := (Text.mem_intercalate hdot).1 hin
      exact .inr ((isSegment_iff.1 (hsegments text htext)).2 d hchar)
  simp [isModuleName, isPlain, hfilled, hplain, parse_spelling h, ModuleName.isEmpty, hne]

/-- The specifiers that are accepted are those that say a name. -/
theorem isModuleName_iff :
    isModuleName spec = true ↔ ∃ m : ModuleName, m.isProper = true ∧ m.spelling = spec := by
  constructor
  · intro h
    have hproper := isProper_parse h
    exact ⟨parse spec, hproper, spelling_parse (isProper_iff.1 hproper).1⟩
  · rintro ⟨m, hm, rfl⟩
    exact isModuleName_spelling hm

end Specifier

/-- The pieces of the path that a name stands for. -/
theorem ModuleName.pieces_toPath {m : ModuleName} (h : m.isProper = true) :
    m.toPath.pieces = List.replicate m.climbs ".." ++ m.segments := by
  obtain ⟨hne, hsegments⟩ := isProper_iff.1 h
  refine Path.pieces_joined (fun hnil => hne (List.append_eq_nil_iff.1 hnil).2) fun name hname => ?_
  rcases List.mem_append.1 hname with hup | hname
  · rw [(List.mem_replicate.1 hup).2]
    exact ⟨by decide, by decide⟩
  · exact (isPiece_of_isSegment (hsegments name hname)).1

/-- The last segment of a name. -/
theorem ModuleName.exists_last {m : ModuleName} (h : m.isProper = true) :
    ∃ above last, m.segments = above ++ [last] ∧ isSegment last = true := by
  obtain ⟨hne, hsegments⟩ := isProper_iff.1 h
  exact ⟨_, _, (List.dropLast_concat_getLast hne).symm, hsegments _ (List.getLast_mem hne)⟩

theorem ModuleName.isAbsolute_toPath {m : ModuleName} (h : m.isProper = true) :
    m.toPath.isAbsolute = false := by
  obtain ⟨first, more, hfirst⟩ := List.exists_cons_of_ne_nil m.toPath.pieces_ne_nil
  refine (Path.relative_of_pieces hfirst ?_).1
  have hmem : first ∈ List.replicate m.climbs ".." ++ m.segments :=
    pieces_toPath h ▸ hfirst ▸ List.mem_cons_self
  rcases List.mem_append.1 hmem with hup | hname
  · rw [(List.mem_replicate.1 hup).2]
    decide
  · exact (isSegment_iff.1 ((isProper_iff.1 h).2 first hname)).1

namespace Resolver

variable {spec : String}

/-- What comes of the candidates that were looked at: the file found among them, or a report of
them. -/
def answer (spec : String) (origin : Option Path) (found : Option Path) (tried : List Candidate) :
    Except ResolutionError Resolved :=
  match found with
  | some path => .ok ⟨path, tried⟩
  | none => .error (.exhausted spec origin tried)

theorem path_answer (spec : String) (origin found : Option Path) (tried : List Candidate) :
    (answer spec origin found tried).toOption.map (·.path) = found := by
  rcases found with _ | path <;> rfl

/-- A specifier that is no name leads to no file, whoever asks. -/
theorem resolve_of_malformed (h : Specifier.isModuleName spec = false) (r : Resolver)
    (fs : FileSystem) (origin : Option Path) :
    r.resolve fs spec origin = .error (.malformed spec) :=
  if_pos (by rw [Specifier.not_isModuleName, h, Bool.not_false])

section Name

variable (h : Specifier.isModuleName spec = true)

include h

/-- A name that climbs leads nowhere if no file asks for it. -/
theorem resolve_of_missing (hrelative : (Specifier.parse spec).isRelative = true) (r : Resolver)
    (fs : FileSystem) : r.resolve fs spec none = .error (.missingOrigin spec) := by
  unfold resolve
  simp only [Specifier.not_isModuleName, h, hrelative, Bool.not_true, Bool.false_eq_true, if_false,
    if_true]

/-- A name that climbs leads to the first candidate next to the file that asks. -/
theorem resolve_of_relative (hrelative : (Specifier.parse spec).isRelative = true) (r : Resolver)
    (fs : FileSystem) (file : Path) :
    r.resolve fs spec (some file) =
      answer spec (some file) (firstFile fs (r.relativeCandidates (Specifier.parse spec) file)).1
        (r.relativeCandidates (Specifier.parse spec) file) := by
  unfold resolve
  simp only [Specifier.not_isModuleName, h, hrelative, Bool.not_true, Bool.false_eq_true, if_false,
    if_true]
  rcases (firstFile fs (r.relativeCandidates (Specifier.parse spec) file)).1 with _ | path <;> rfl

/-- Any other name leads to the first candidate in the search directories, whoever asks. -/
theorem resolve_of_qualified (hqualified : ¬ (Specifier.parse spec).isRelative = true)
    (r : Resolver) (fs : FileSystem) (origin : Option Path) :
    r.resolve fs spec origin =
      answer spec origin (firstFile fs (r.searchCandidates (Specifier.parse spec))).1
        (firstFile fs (r.searchCandidates (Specifier.parse spec))).2 := by
  unfold resolve
  simp only [Specifier.not_isModuleName, h, hqualified, Bool.not_true, Bool.false_eq_true, if_false]
  rcases firstFile fs (r.searchCandidates (Specifier.parse spec)) with ⟨_ | path, tried⟩ <;> rfl

end Name

/-- A specifier is rejected for what it is, or for want of a file that asks, or else it is looked
up. -/
theorem resolve_cases (r : Resolver) (fs : FileSystem) (spec : String) (origin : Option Path) :
    Specifier.isModuleName spec = false ∧
      r.resolve fs spec origin = .error (.malformed spec) ∨
    Specifier.isModuleName spec = true ∧ (Specifier.parse spec).isRelative = true ∧ origin = none ∧
      r.resolve fs spec origin = .error (.missingOrigin spec) ∨
    Specifier.isModuleName spec = true ∧
      ((Specifier.parse spec).isRelative = true → origin ≠ none) ∧
      ∃ found tried, r.resolve fs spec origin = answer spec origin found tried := by
  rcases hname : Specifier.isModuleName spec with _ | _
  · exact .inl ⟨rfl, resolve_of_malformed hname r fs origin⟩
  · refine .inr ?_
    by_cases hrelative : (Specifier.parse spec).isRelative = true
    · rcases origin with _ | file
      · exact .inl ⟨rfl, hrelative, rfl, resolve_of_missing hname hrelative r fs⟩
      · exact .inr ⟨rfl, fun _ => Option.some_ne_none file, _, _,
          resolve_of_relative hname hrelative r fs file⟩
    · exact .inr ⟨rfl, fun h => absurd h hrelative, _, _,
        resolve_of_qualified hname hrelative r fs origin⟩

section Rejected

variable {r : Resolver} {fs : FileSystem} {origin : Option Path} {s : String}

/-- A specifier is malformed exactly if it is no name. -/
theorem resolve_malformed_iff :
    r.resolve fs spec origin = .error (.malformed s) ↔
      Specifier.isModuleName spec = false ∧ s = spec := by
  rcases resolve_cases r fs spec origin with
    ⟨hname, h⟩ | ⟨hname, _, _, h⟩ | ⟨hname, _, found, tried, h⟩
  · simp [h, hname, eq_comm]
  · simp [h, hname]
  · rcases found with _ | path <;> simp [h, hname, answer]

/-- A file that asks is missing exactly if the specifier is a name that climbs and there is none. -/
theorem resolve_missingOrigin_iff :
    r.resolve fs spec origin = .error (.missingOrigin s) ↔
      (Specifier.isModuleName spec = true ∧ (Specifier.parse spec).isRelative = true) ∧
        origin = none ∧ s = spec := by
  rcases resolve_cases r fs spec origin with
    ⟨hname, h⟩ | ⟨hname, hrelative, rfl, h⟩ | ⟨hname, hasks, found, tried, h⟩
  · simp [h, hname]
  · rw [h]
    simp [hname, hrelative, eq_comm]
  · have hnot : ¬ ((Specifier.parse spec).isRelative = true ∧ origin = none ∧ s = spec) :=
      fun ⟨hrelative, horigin, _⟩ => hasks hrelative horigin
    rw [and_assoc, iff_false_right fun ⟨_, hrest⟩ => hnot hrest]
    rcases found with _ | path <;> simp [h, answer]

end Rejected

/-- A specifier is rejected as malformed exactly if it is not written as some dots and then segments
with a dot between any two of them; of the others, those with a dot in front are rejected exactly if
no file asks. Either is decided without a look at the file system or at the search directories, and
reports no candidate. A specifier that is not malformed is read as its leading dots and its
segments, and these write it again. -/
theorem resolve_rejects_iff (r : Resolver) (fs : FileSystem) (spec : String)
    (origin : Option Path) :
    ((∃ s, r.resolve fs spec origin = .error (.malformed s)) ↔
      ¬ ∃ m : ModuleName, m.isProper = true ∧ m.spelling = spec) ∧
    ((∃ s, r.resolve fs spec origin = .error (.missingOrigin s)) ↔
      (∃ m : ModuleName, m.isProper = true ∧ m.spelling = spec ∧ 0 < m.climbs) ∧ origin = none) ∧
    (∀ e s, e = .malformed s ∨ e = .missingOrigin s → r.resolve fs spec origin = .error e →
      s = spec ∧ e.tried = [] ∧
        ∀ (r' : Resolver) (fs' : FileSystem), r'.resolve fs' spec origin = .error e) ∧
    (∀ m : ModuleName, m.isProper = true → m.spelling = spec → Specifier.parse spec = m) ∧
    ((∀ s, r.resolve fs spec origin ≠ .error (.malformed s)) →
      (Specifier.parse spec).isProper = true ∧ (Specifier.parse spec).spelling = spec) := by
  have hread : ∀ m : ModuleName, m.isProper = true → m.spelling = spec →
      Specifier.parse spec = m := by
    rintro m hm rfl
    exact Specifier.parse_spelling hm
  refine ⟨?_, ?_, ?_, hread, fun haccepted => ?_⟩
  · simp only [resolve_malformed_iff, exists_and_left, exists_eq, and_true,
      ← Specifier.isModuleName_iff, Bool.not_eq_true]
  · simp only [resolve_missingOrigin_iff]
    constructor
    · rintro ⟨s, ⟨hname, hrelative⟩, horigin, _⟩
      have hproper := Specifier.isProper_parse hname
      have hspelling := Specifier.spelling_parse (ModuleName.isProper_iff.1 hproper).1
      have hclimbs : 0 < (Specifier.parse spec).climbs := by
        simpa [ModuleName.isRelative] using hrelative
      exact ⟨⟨Specifier.parse spec, hproper, hspelling, hclimbs⟩, horigin⟩
    · rintro ⟨⟨m, hm, hspelling, hclimbs⟩, horigin⟩
      refine ⟨spec, ⟨Specifier.isModuleName_iff.2 ⟨m, hm, hspelling⟩, ?_⟩, horigin, rfl⟩
      rw [hread m hm hspelling]
      simpa [ModuleName.isRelative] using hclimbs
  · rintro e s (rfl | rfl) h
    · obtain ⟨hname, rfl⟩ := resolve_malformed_iff.1 h
      exact ⟨rfl, rfl, fun r' fs' => resolve_of_malformed hname r' fs' origin⟩
    · obtain ⟨⟨hname, hrelative⟩, rfl, rfl⟩ := resolve_missingOrigin_iff.1 h
      exact ⟨rfl, rfl, fun r' fs' => resolve_of_missing hname hrelative r' fs'⟩
  · have hname : Specifier.isModuleName spec = true := by
      rw [← Bool.not_eq_false]
      exact fun hmalformed => haccepted spec (resolve_of_malformed hmalformed r fs origin)
    have hproper := Specifier.isProper_parse hname
    exact ⟨hproper, Specifier.spelling_parse (ModuleName.isProper_iff.1 hproper).1⟩

end Resolver

end ScriptBuild
