import Mathlib.Data.List.Basic
import ScriptBuild.Depfile
import ScriptBuild.FileSystem.Build

/-!
# Reading a dependency file back

A reader splits the line at the blanks that are not escaped and undoes the escapes. A backslash is
not escaped itself, so one at the end of a path escapes the blank after it, and the path runs into
the next one. Main statements: `read_line` says what is read back, and `record_eq_iff` which targets
and dependencies have the same line.
-/

namespace ScriptBuild.Depfile

/-- The words of a line, with the escapes undone. -/
def words : List Char → List (List Char)
  | [] => [[]]
  | '\\' :: ' ' :: cs => (words cs).modifyHead (' ' :: ·)
  | '\\' :: '#' :: cs => (words cs).modifyHead ('#' :: ·)
  | '$' :: '$' :: cs => (words cs).modifyHead ('$' :: ·)
  | ' ' :: cs => [] :: words cs
  | c :: cs => (words cs).modifyHead (c :: ·)

/-- The target and the dependencies that a line is read as. -/
def read (line : List Char) : List Char × List (List Char) :=
  match words line.dropLast with
  | [] => ([], [])
  | target :: dependencies => (target.dropLast, dependencies)

/-- The dependencies as they are written, each after a blank. -/
def written (dependencies : List (List Char)) : List Char :=
  dependencies.flatMap fun d => ' ' :: escape d

/-- The line for a target and dependencies. -/
def line (target : List Char) (dependencies : List (List Char)) : List Char :=
  escape target ++ ':' :: written dependencies ++ ['\n']

/-- The path ends in a backslash. -/
def EndsOpen (d : List Char) : Prop :=
  d.getLast? = some '\\'

instance (d : List Char) : Decidable (EndsOpen d) :=
  inferInstanceAs (Decidable (_ = _))

/-- The dependencies as they are read back: one that ends in a backslash runs into the next one,
with a blank in place of the backslash. -/
def merged : List (List Char) → List (List Char)
  | [] => []
  | d :: ds => if EndsOpen d ∧ ds ≠ [] then (merged ds).modifyHead (d.dropLast ++ ' ' :: ·)
    else d :: merged ds

theorem merged_singleton (d : List Char) : merged [d] = [d] := by
  simp [merged]

theorem merged_of_open (init e : List Char) (es : List (List Char)) :
    merged ((init ++ ['\\']) :: e :: es) = (merged (e :: es)).modifyHead (init ++ ' ' :: ·) := by
  rw [merged, if_pos ⟨List.getLast?_concat, by simp⟩, List.dropLast_concat]

theorem merged_of_closed {d : List Char} (h : ¬ EndsOpen d) (ds : List (List Char)) :
    merged (d :: ds) = d :: merged ds := by
  rw [merged, if_neg fun hopen => h hopen.1]

theorem escape_open (init : List Char) : escape (init ++ ['\\']) = escape init ++ ['\\'] :=
  escape_append init ['\\']

/-- A character is read back, unless it is a backslash and escapes what follows. -/
theorem words_escapeChar {c : Char} {rest : List Char}
    (h : c = '\\' → rest.head? ≠ some ' ' ∧ rest.head? ≠ some '#') :
    words (escapeChar c ++ rest) = (words rest).modifyHead (c :: ·) := by
  unfold escapeChar
  split
  · next hc =>
    subst hc
    rfl
  · split
    · next hc =>
      subst hc
      rfl
    · split
      · next hc =>
        subst hc
        rfl
      · show words (c :: rest) = _
        rw [words.eq_def]
        split <;> simp_all

/-- A path is read back in front of what it does not escape. -/
theorem words_escape_append {d rest : List Char}
    (h : EndsOpen d → rest.head? ≠ some ' ' ∧ rest.head? ≠ some '#') :
    words (escape d ++ rest) = (words rest).modifyHead (d ++ ·) := by
  induction d with
  | nil => exact (congrFun List.modifyHead_id _).symm
  | cons c d ih =>
    have hfirst : c = '\\' → (escape d ++ rest).head? ≠ some ' ' ∧
        (escape d ++ rest).head? ≠ some '#' := by
      intro hc
      cases d with
      | nil => exact h (congrArg some hc)
      | cons c' d =>
        -- No escape begins with a character that a backslash escapes.
        show (escapeChar c' ++ escape d ++ rest).head? ≠ _ ∧
          (escapeChar c' ++ escape d ++ rest).head? ≠ _
        unfold escapeChar
        split_ifs <;> simp_all
    have hrest : EndsOpen d → rest.head? ≠ some ' ' ∧ rest.head? ≠ some '#' := by
      intro hd
      cases d with
      | nil => cases hd
      | cons c' d => exact h (List.getLast?_cons_cons.trans hd)
    show words (escapeChar c ++ escape d ++ rest) = _
    rw [List.append_assoc, words_escapeChar hfirst, ih hrest, List.modifyHead_modifyHead]
    rfl

theorem words_escape_written (d : List Char) (ds : List (List Char)) :
    words (escape d ++ written ds) = merged (d :: ds) := by
  induction ds generalizing d with
  | nil =>
    have hread := @words_escape_append d [] fun _ => ⟨by simp, by simp⟩
    rw [merged_singleton]
    simpa [written, words] using hread
  | cons e es ih =>
    show words (escape d ++ ' ' :: (escape e ++ written es)) = _
    by_cases hopen : EndsOpen d
    · obtain ⟨init, rfl⟩ := List.getLast?_eq_some_iff.1 hopen
      rw [escape_open, List.append_assoc, words_escape_append (by simp), merged_of_open, ← ih]
      exact List.modifyHead_modifyHead
    · rw [words_escape_append fun h => absurd h hopen, merged_of_closed hopen, ← ih]
      exact congrArg (· :: _) (List.append_nil d)

/-- What is read back of a line. -/
theorem read_line (target : List Char) (ds : List (List Char)) :
    read (line target ds) = (target, merged ds) := by
  have hwritten : words (written ds) = [] :: merged ds := by
    cases ds with
    | nil => rfl
    | cons d ds => exact congrArg ([] :: ·) (words_escape_written d ds)
  have hcolon : words (':' :: written ds) = [':'] :: merged ds := by
    have h := @words_escapeChar ':' (written ds) (by simp)
    rw [hwritten] at h
    exact h
  have hwords : words (escape target ++ ':' :: written ds) = (target ++ [':']) :: merged ds := by
    rw [words_escape_append (by simp), hcolon]
    rfl
  rw [read, line, List.dropLast_concat, hwords]
  simp

theorem exists_merged_cons (d : List Char) (ds : List (List Char)) :
    ∃ m ms, merged (d :: ds) = m :: ms := by
  induction ds generalizing d with
  | nil => exact ⟨d, [], merged_singleton d⟩
  | cons e es ih =>
    by_cases hopen : EndsOpen d
    · obtain ⟨init, rfl⟩ := List.getLast?_eq_some_iff.1 hopen
      obtain ⟨m, ms, heq⟩ := ih e
      exact ⟨_, ms, by rw [merged_of_open, heq]; rfl⟩
    · exact ⟨d, _, merged_of_closed hopen _⟩

/-- The line says no more than what is read back. -/
theorem written_merged (ds : List (List Char)) : written (merged ds) = written ds := by
  induction ds with
  | nil => rfl
  | cons d ds ih =>
    by_cases hopen : EndsOpen d
    · obtain ⟨init, rfl⟩ := List.getLast?_eq_some_iff.1 hopen
      cases ds with
      | nil => rw [merged_singleton]
      | cons e es =>
        obtain ⟨m, ms, heq⟩ := exists_merged_cons e es
        have hjoined : escape (init ++ ' ' :: m) = escape (init ++ ['\\']) ++ ' ' :: escape m := by
          rw [escape_append, escape_open, List.append_assoc]
          rfl
        have hrest : written (e :: es) = ' ' :: escape m ++ written ms := by
          rw [← ih, heq]
          rfl
        rw [merged_of_open, heq]
        show ' ' :: escape (init ++ ' ' :: m) ++ written ms =
          ' ' :: escape (init ++ ['\\']) ++ written (e :: es)
        rw [hjoined, hrest]
        simp
    · rw [merged_of_closed hopen]
      exact congrArg (' ' :: escape d ++ ·) ih

/-- Lines are the same exactly if they are read back alike. -/
theorem line_eq_iff {t t' : List Char} {ds ds' : List (List Char)} :
    line t ds = line t' ds' ↔ t = t' ∧ merged ds = merged ds' := by
  constructor
  · intro h
    have hread := congrArg read h
    rw [read_line, read_line] at hread
    exact Prod.mk.inj hread
  · rintro ⟨rfl, h⟩
    rw [line, line, ← written_merged ds, h, written_merged]

theorem length_merged_le (ds : List (List Char)) : (merged ds).length ≤ ds.length := by
  induction ds with
  | nil => exact Nat.le_refl 0
  | cons d ds ih =>
    rw [merged]
    split
    · rw [List.length_modifyHead]
      exact Nat.le_succ_of_le ih
    · exact Nat.succ_le_succ ih

/-- The dependencies are read back as they are exactly if none but the last ends in a backslash. -/
theorem merged_eq_self_iff {ds : List (List Char)} :
    merged ds = ds ↔ ∀ d ∈ ds.dropLast, ¬ EndsOpen d := by
  induction ds with
  | nil => simp [merged]
  | cons d ds ih =>
    cases ds with
    | nil => simp [merged_singleton]
    | cons e es =>
      rw [List.dropLast_cons_cons, List.forall_mem_cons, ← ih]
      by_cases hopen : EndsOpen d
      · have hlength := length_merged_le (e :: es)
        refine ⟨fun h => ?_, fun h => absurd hopen h.1⟩
        have hshort := congrArg List.length h
        rw [merged, if_pos ⟨hopen, by simp⟩, List.length_modifyHead, List.length_cons] at hshort
        omega
      · rw [merged_of_closed hopen, List.cons_inj_right]
        exact ⟨fun h => ⟨hopen, h⟩, fun h => h.2⟩

/-- The characters of a path. -/
def spelling (p : Path) : List Char :=
  p.text.toList

theorem spelling_inj {p q : Path} : spelling p = spelling q ↔ p = q := by
  obtain ⟨p⟩ := p
  obtain ⟨q⟩ := q
  simp [spelling, String.toList_inj]

/-- Without a root the paths are written as they are. -/
theorem render_none (disk : FileSystem) (target : Path) (dependencies : List Path) :
    render disk target dependencies none =
      .ok (String.ofList (line (spelling target) (dependencies.map spelling))) := by
  have hshown : shown disk none = pure := rfl
  have hall : dependencies.mapM (pure : Path → Except DepfileError Path) = pure dependencies := by
    simpa using List.mapM_pure (m := Except DepfileError) (l := dependencies) (f := id)
  simp only [render, Option.mapM_none, pure_bind, hshown, hall, line, written, List.flatMap_map]
  rfl

/-- Without a root, the record of a target and dependencies is read back as the target and the
dependencies, where a dependency that ends in a backslash has run into the one after it; all of them
are texts, for what is no text is not written as it is. So two records are the same exactly if their
targets are and their dependencies run together into the same paths. A list of dependencies is read
back unchanged exactly if none of them but the last ends in a backslash; among such lists, different
ones have different records. -/
theorem record_eq_iff (disk : FileSystem) (t t' : Path) (ds ds' : List Path) :
    (∃ record, render disk t ds none = .ok record ∧
      read record.toList = (spelling t, merged (ds.map spelling))) ∧
    (render disk t ds none = render disk t' ds' none ↔
      t = t' ∧ merged (ds.map spelling) = merged (ds'.map spelling)) ∧
    (merged (ds.map spelling) = ds.map spelling ↔
      ∀ d ∈ ds.dropLast, d.text.toList.getLast? ≠ some '\\') ∧
    ((∀ d ∈ ds.dropLast, d.text.toList.getLast? ≠ some '\\') →
      (∀ d ∈ ds'.dropLast, d.text.toList.getLast? ≠ some '\\') →
      (render disk t ds none = render disk t' ds' none ↔ t = t' ∧ ds = ds')) := by
  have hread : ∀ ds : List Path, merged (ds.map spelling) = ds.map spelling ↔
      ∀ d ∈ ds.dropLast, d.text.toList.getLast? ≠ some '\\' := by
    intro ds
    rw [merged_eq_self_iff, ← List.map_dropLast, List.forall_mem_map]
    exact Iff.rfl
  have hsame : render disk t ds none = render disk t' ds' none ↔
      t = t' ∧ merged (ds.map spelling) = merged (ds'.map spelling) := by
    rw [render_none, render_none, Except.ok.injEq, String.ofList_inj, line_eq_iff, spelling_inj]
  refine ⟨⟨_, render_none disk t ds, ?_⟩, hsame, hread ds, fun hds hds' => ?_⟩
  · rw [String.toList_ofList, read_line]
  · rw [hsame, (hread ds).2 hds, (hread ds').2 hds']
    exact and_congr_right' (List.map_inj_right fun _ _ => spelling_inj.1)

/-- Backslashes inside of a path, and at the end of the last one, are read back, as are the colons
of a target. -/
theorem inner_backslash_read :
    let disk := FileSystem.ofEntries ⟨"/"⟩ []
    let target : Path := ⟨"t: u"⟩
    let ds : List Path := [⟨"a\\ b"⟩, ⟨"\\#$c"⟩, ⟨"d\\"⟩]
    (∀ d ∈ ds.dropLast, d.text.toList.getLast? ≠ some '\\') ∧
      ∃ record, render disk target ds none = .ok record ∧
        read record.toList = (spelling target, ds.map spelling) := by
  intro disk target ds
  have hds : ∀ d ∈ ds.dropLast, d.text.toList.getLast? ≠ some '\\' := by
    decide
  obtain ⟨⟨record, hrecord, hread⟩, _, hself, _⟩ := record_eq_iff disk target target ds ds
  rw [hself.2 hds] at hread
  exact ⟨hds, record, hrecord, hread⟩

/-- A dependency that ends in a backslash runs into the next one: the record is that of a single
dependency with a blank in it. -/
theorem dependencies_run_together :
    let disk := FileSystem.ofEntries ⟨"/"⟩ []
    render disk ⟨"t"⟩ [⟨"a\\"⟩, ⟨"b"⟩] none = .ok "t: a\\ b\n" ∧
      render disk ⟨"t"⟩ [⟨"a b"⟩] none = .ok "t: a\\ b\n" :=
  ⟨rfl, rfl⟩

end ScriptBuild.Depfile
