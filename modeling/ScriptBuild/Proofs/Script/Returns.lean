import ScriptBuild.Script.Chunk

/-!
# Where a script returns

A script that was read returns at its end or not at all, so one that runs to its end has run all of
its statements. Main statement: `returnsLast_of_ofText`.
-/

namespace ScriptBuild.Script

/-- No statement follows a `return`. -/
inductive ReturnsLast : List Statement → Prop where
  | nil : ReturnsLast []
  | cons {s : Statement} {more : List Statement} (last : s.action.isReturn = true → more = [])
      (rest : ReturnsLast more) : ReturnsLast (s :: more)

theorem returnsLast_of_parseStatements {finish : Position} {returned : Bool} {ts : List Placed}
    {statements : List Statement} (h : parseStatements finish returned ts = .ok statements) :
    ReturnsLast statements ∧ (returned = true → statements = []) := by
  fun_induction parseStatements finish returned ts generalizing statements with
  | case1 =>
    cases h
    exact ⟨.nil, fun _ => rfl⟩
  | case2 returned t rest hsemicolon ih => exact ih h
  | case3 => cases h
  | case4 => cases h
  | case5 returned t rest hmark hreturned action rest' below hparse ih =>
    cases hrest : parseStatements finish action.isReturn rest' with
    | error fault =>
      rw [hrest] at h
      cases h
    | ok more =>
      rw [hrest] at h
      cases h
      obtain ⟨hmore, hlast⟩ := ih hrest
      exact ⟨.cons hlast hmore, fun hret => absurd hret hreturned⟩

/-- A text is read as tokens first, and these as statements. -/
theorem ofText_eq_ok {source : String} {origin : Option Path} {c : Chunk} :
    Chunk.ofText source origin = .ok c ↔
      ∃ tokens statements, Tokens.ofText source = .ok tokens ∧
        parseStatements tokens.finish false tokens.list = .ok statements ∧
        c = ⟨origin, source, statements⟩ := by
  unfold Chunk.ofText
  cases Tokens.ofText source with
  | error fault => simp [bind, Except.bind]
  | ok tokens =>
    simp only [bind, Except.bind]
    cases hstatements : parseStatements tokens.finish false tokens.list <;>
      simp [hstatements, pure, Except.pure, eq_comm]

/-- In a script that was read, no statement follows a `return`. -/
theorem returnsLast_of_ofText {source : String} {origin : Option Path} {c : Chunk}
    (h : Chunk.ofText source origin = .ok c) : ReturnsLast c.statements := by
  obtain ⟨tokens, statements, _, hstatements, rfl⟩ := ofText_eq_ok.1 h
  exact (returnsLast_of_parseStatements hstatements).1

end ScriptBuild.Script
