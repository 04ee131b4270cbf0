import ScriptBuild.Text.Pieces

/-!
# A text and its pieces

Cutting a text at a separator and putting texts together with it undo each other. Main statements:
`intercalate_pieces` and `pieces_intercalate` say so, `mem_intercalate` and `not_mem_of_mem_pieces`
which characters the two sides have.
-/

namespace ScriptBuild.Text

variable {separator c : Char} {names : List String} {s piece : String}

theorem not_mem_of_mem_splitOn {cs piece : List Char} (h : piece ∈ cs.splitOn c) : c ∉ piece := by
  induction cs generalizing piece with
  | nil =>
    rw [List.splitOn_nil, List.mem_singleton] at h
    rw [h]
    exact List.not_mem_nil
  | cons d cs ih =>
    rw [List.splitOn_cons_eq_if_modifyHead] at h
    split at h
    · rcases List.mem_cons.1 h with rfl | h
      · exact List.not_mem_nil
      · exact ih h
    · next hne =>
      rcases hsplit : cs.splitOn c with _ | ⟨first, more⟩
      · exact absurd hsplit (List.splitOn_ne_nil c cs)
      · rw [hsplit, List.modifyHead_cons] at h
        rw [hsplit] at ih
        rcases List.mem_cons.1 h with rfl | h
        · intro hc
          rcases List.mem_cons.1 hc with rfl | hc
          · exact hne (beq_self_eq_true c)
          · exact ih List.mem_cons_self hc
        · exact ih (List.mem_cons_of_mem _ h)

/-- The separator is in none of the pieces. -/
theorem not_mem_of_mem_pieces (h : piece ∈ pieces c s) : c ∉ piece.toList := by
  obtain ⟨cs, hcs, rfl⟩ := List.mem_map.1 h
  rw [String.toList_ofList]
  exact not_mem_of_mem_splitOn hcs

/-- A text is its pieces with the separator between them. -/
theorem intercalate_pieces (separator : Char) (s : String) :
    (String.ofList [separator]).intercalate (pieces separator s) = s := by
  rw [← String.toList_inj, String.toList_intercalate, String.toList_ofList, pieces]
  simp [Function.comp_def, List.intercalate_splitOn]

/-- Texts without the separator are the pieces of the text that they are put together to. -/
theorem pieces_intercalate (hne : names ≠ []) (hnames : ∀ name ∈ names, separator ∉ name.toList) :
    pieces separator ((String.ofList [separator]).intercalate names) = names := by
  have hlists : ∀ cs ∈ names.map String.toList, separator ∉ cs := by
    intro cs hcs
    obtain ⟨name, hname, rfl⟩ := List.mem_map.1 hcs
    exact hnames name hname
  rw [pieces, String.toList_intercalate, String.toList_ofList,
    List.splitOn_intercalate separator hlists (by simpa using hne)]
  simp

/-- A text without the separator in front of another one begins its first piece. -/
theorem pieces_append_of_not_mem {first : String} {more : List String}
    (hpiece : separator ∉ piece.toList) (h : pieces separator s = first :: more) :
    pieces separator (piece ++ s) = (piece ++ first) :: more := by
  have hnames : ∀ name ∈ (piece ++ first) :: more, separator ∉ name.toList := by
    intro name hname
    rcases List.mem_cons.1 hname with rfl | hmore
    · rw [String.toList_append, List.mem_append]
      exact not_or_intro hpiece (not_mem_of_mem_pieces (h ▸ List.mem_cons_self))
    · exact not_mem_of_mem_pieces (h ▸ List.mem_cons_of_mem _ hmore)
  have htext : piece ++ s = (String.ofList [separator]).intercalate ((piece ++ first) :: more) := by
    rw [← intercalate_pieces separator s, h]
    rcases more with _ | ⟨second, more⟩
    · rw [String.intercalate_singleton, String.intercalate_singleton]
    · simp only [String.intercalate_cons_cons, String.append_assoc]
  rw [htext, pieces_intercalate (List.cons_ne_nil _ _) hnames]

/-- A character of texts put together is the separator or in one of them. -/
theorem mem_intercalate (hc : c ≠ separator) :
    c ∈ ((String.ofList [separator]).intercalate names).toList ↔
      ∃ name ∈ names, c ∈ name.toList := by
  induction names with
  | nil => simp
  | cons name names ih =>
    rcases names with _ | ⟨other, names⟩
    · simp
    · rw [String.intercalate_cons_cons]
      simp only [String.toList_append, String.toList_ofList, List.mem_append, List.mem_singleton, ih]
      simp [hc]

/-- The pieces of a text have no other characters than it. -/
theorem mem_of_mem_pieces (h : piece ∈ pieces separator s) (hc : c ∈ piece.toList) :
    c ∈ s.toList := by
  have hne : c ≠ separator := by
    rintro rfl
    exact not_mem_of_mem_pieces h hc
  rw [← intercalate_pieces separator s, mem_intercalate hne]
  exact ⟨piece, h, hc⟩

end ScriptBuild.Text
