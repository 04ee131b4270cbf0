import ScriptBuild.Proofs.Script.Spelling

/-!
# Layout

What stands between the tokens of a script: blanks, and comments with the line feeds that end them.
Main statements: `skipLayout_append` says that all layout is skipped, and `exists_layout` that in
front of a token nothing else is.
-/

namespace ScriptBuild.Script

open Text

/-- The text only separates tokens. -/
inductive Layout : List Char → Prop where
  | nil : Layout []
  | blank {c : Char} {cs : List Char} (blank : isBlank c = true) (rest : Layout cs) :
      Layout (c :: cs)
  | comment {body cs : List Char} (inside : '\n' ∉ body) (rest : Layout cs) :
      Layout ('-' :: '-' :: (body ++ '\n' :: cs))

theorem isBlank_dash : isBlank '-' = false := by decide

/-- A blank goes on neither a word nor a number. -/
theorem isWordChar_of_isBlank {c : Char} (h : isBlank c = true) : isWordChar c = false := by
  rw [← Bool.not_eq_true, isWordChar_iff, isWordStart_iff, isDigit_iff]
  intro hc
  rw [isBlank_of_graphic (by omega)] at h
  cases h

theorem Layout.breaks {gap : List Char} (h : Layout gap) : Breaks gap := by
  intro d hd
  cases h with
  | nil => cases hd
  | blank blank =>
    cases hd
    exact isWordChar_of_isBlank blank
  | comment =>
    cases hd
    decide

/-- What follows two dashes in layout is a comment and layout behind it. -/
theorem Layout.of_dashes {cs : List Char} (h : Layout ('-' :: '-' :: cs)) :
    ∃ body gap, '\n' ∉ body ∧ Layout gap ∧ cs = body ++ '\n' :: gap := by
  cases h with
  | blank blank => exact absurd blank (by decide)
  | @comment body gap inside rest => exact ⟨body, gap, inside, rest, rfl⟩

section Skip

variable {p q : Position} {gap more : List Char} {c : Char}

theorem skipLayout_of_starts (h : Starts c more) : skipLayout false p (c :: more) = ⟨p, c :: more⟩ := by
  have hdash : (c = '-' && more.head? == some '-') = false := by
    simpa using h.outside
  simp [skipLayout, h.seen, hdash]

theorem skipLayout_comment {body : List Char} (inside : '\n' ∉ body) (p : Position) :
    skipLayout true p (body ++ '\n' :: more) =
      skipLayout false (p.afterAll (body ++ ['\n'])) more := by
  induction body generalizing p with
  | nil => rfl
  | cons c body ih =>
    have hc := List.ne_of_not_mem_cons inside
    have hbody := List.not_mem_of_not_mem_cons inside
    have hcomment : decide (c ≠ '\n') = true := decide_eq_true (Ne.symm hc)
    rw [List.cons_append, skipLayout, if_pos rfl, hcomment, ih hbody]
    rfl

/-- All layout is skipped. -/
theorem skipLayout_append (h : Layout gap) (p : Position) (more : List Char) :
    skipLayout false p (gap ++ more) = skipLayout false (p.afterAll gap) more := by
  induction h generalizing p with
  | nil => rfl
  | @blank c cs blank _ ih =>
    rw [List.cons_append, skipLayout, if_neg Bool.false_ne_true, if_pos blank, ih]
    rfl
  | @comment body cs inside _ ih =>
    have hsecond : '\n' ∉ '-' :: body := by simpa using inside
    have hskip := @skipLayout_comment (cs ++ more) ('-' :: body) hsecond (p.after '-')
    rw [ih, ← Position.afterAll_append] at hskip
    simp only [List.cons_append, List.append_assoc] at hskip ⊢
    rw [skipLayout]
    simpa [isBlank_dash, Position.afterAll] using hskip

/-- In front of a token nothing but layout is skipped. Inside of a comment its rest is skipped first,
which is layout together with the dashes that begin it. -/
theorem exists_layout {inComment : Bool} {cs : List Char}
    (h : skipLayout inComment p cs = ⟨q, c :: more⟩) :
    ∃ gap, cs = gap ++ c :: more ∧ q = p.afterAll gap ∧ Starts c more ∧
      Layout (if inComment then '-' :: '-' :: gap else gap) := by
  fun_induction skipLayout inComment p cs with
  | case1 => cases h
  | case2 p d cs ih =>
    obtain ⟨gap, rfl, rfl, hstarts, hlayout⟩ := ih h
    refine ⟨d :: gap, rfl, rfl, hstarts, ?_⟩
    rw [if_pos rfl]
    by_cases hd : d = '\n'
    · rw [hd, if_neg (by simp)] at hlayout
      rw [hd]
      exact .comment List.not_mem_nil hlayout
    · rw [if_pos (decide_eq_true hd)] at hlayout
      obtain ⟨body, rest, hbody, hrest, rfl⟩ := hlayout.of_dashes
      have hinside : '\n' ∉ d :: body := by
        simp [hbody, Ne.symm hd]
      exact .comment hinside hrest
  | case3 inComment p d cs hcomment hblank ih =>
    obtain ⟨gap, rfl, rfl, hstarts, hlayout⟩ := ih h
    refine ⟨d :: gap, rfl, rfl, hstarts, ?_⟩
    rw [if_neg hcomment]
    exact .blank hblank hlayout
  | case4 inComment p d cs hcomment hblank hdashes ih =>
    obtain ⟨gap, rfl, rfl, hstarts, hlayout⟩ := ih h
    obtain ⟨body, rest, hbody, hrest, rfl⟩ := hlayout.of_dashes
    refine ⟨d :: (body ++ '\n' :: rest), rfl, rfl, hstarts, ?_⟩
    rw [if_neg hcomment]
    -- The second dash is the first character of what counts as the inside of the comment.
    cases body with
    | nil => simp at hdashes
    | cons second body =>
      simp only [List.cons_append, List.head?_cons, Bool.and_eq_true, decide_eq_true_eq,
        beq_iff_eq, Option.some.injEq] at hdashes
      obtain ⟨rfl, rfl⟩ := hdashes
      exact .comment (List.not_mem_of_not_mem_cons hbody) hrest
  | case5 inComment p d cs hcomment hblank hdashes =>
    cases h
    refine ⟨[], rfl, rfl, ⟨?_, ?_⟩, ?_⟩
    · simpa using hblank
    · simpa using hdashes
    · rw [if_neg hcomment]
      exact .nil

end Skip

end ScriptBuild.Script
