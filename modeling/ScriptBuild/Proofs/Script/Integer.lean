import ScriptBuild.Proofs.Import.Unfolding
import ScriptBuild.Proofs.Script.Fault
import ScriptBuild.Proofs.Script.WellFormed

/-!
# Integers of a script

The value of a script that only returns an integer is that integer, and the script may be written
with the text that shows the integer. The least integer is the one exception: the digits behind its
sign spell a number that no integer is, so it cannot be written at all. Main statement:
`integer_written_iff`.
-/

namespace ScriptBuild

open Script

theorem Value.display_int (n : Int64) : (Value.int n).display = Text.decimal n := by
  rw [Value.display]

/-- The script that returns what a text spells. -/
def Script.returning (text : String) : String :=
  "return " ++ text

/-- The statements of a script that returns an integer. -/
def Script.returnsInt (n : Int64) : List Statement :=
  [⟨.return (.int n), .start⟩]

namespace Script

variable {n : Int64}

theorem toList_returning (text : String) :
    (returning text).toList = "return".toList ++ (' ' :: text.toList) := by
  simp [returning]

theorem legible_return : (Token.word "return").Legible := by decide

/-- All integers but the least one are read back behind `return`. -/
theorem tokens_of_returning (h : n ≠ Int64.minValue) :
    ∃ tokens p, Tokens.ofText (returning (Text.decimal n)) = .ok tokens ∧
      tokens.list = [⟨.word "return", .start⟩, ⟨.int n, p⟩] := by
  have hblank : Layout [' '] := .blank rfl .nil
  let ws : List Written := [.usual .nil legible_return, .usual hblank (t := .int n) h]
  have hgaps : ∀ w ∈ ws.tail, w.gap ≠ [] :=
    List.forall_mem_singleton.2 (List.cons_ne_nil _ _)
  have htext : String.ofList (textOf ws ++ []) = returning (Text.decimal n) := by
    apply String.toList_inj.1
    rw [String.toList_ofList, toList_returning]
    simp [ws, Written.text, Written.usual, Token.spell]
  have hread := ofText_of_apart (apart_of_gaps hgaps Layout.nil.breaks) .nil
  rw [htext] at hread
  exact ⟨_, _, hread, rfl⟩

/-- An integer behind `return` is the statement that returns it. -/
theorem parseStatements_return (finish p : Position) (n : Int64) :
    parseStatements finish false [⟨.word "return", .start⟩, ⟨.int n, p⟩] = .ok (returnsInt n) := by
  have hvalue : parseExpr finish [⟨.int n, p⟩] = .ok ⟨.int n, [], by simp⟩ := by
    rw [parseExpr]
    simp [parsePrimary, takeFields]
  have hreturn : parseReturn finish ⟨.word "return", .start⟩ [⟨.int n, p⟩] =
      .ok ⟨.return (.int n), [], by simp⟩ := by
    simp [parseReturn, takeMark?, hvalue, Except.map, Parsed.map, Parsed.after]
  have haction : parseAction finish [⟨.word "return", .start⟩, ⟨.int n, p⟩] =
      .ok ⟨.return (.int n), [], by simp⟩ := by
    rw [← hreturn]
    rfl
  rw [parseStatements, haction]
  simp [parseStatements, Except.map, returnsInt]

/-- The digits of the least integer are refused, wherever its sign stands. -/
theorem tokens_of_least :
    Tokens.ofText (returning (Text.decimal Int64.minValue)) =
      .error ⟨.outOfRange "9223372036854775808", ⟨1, 28⟩⟩ := by
  have hblank : Layout [' '] := .blank rfl .nil
  have hfaulty : Faulty (.outOfRange "9223372036854775808") ('-' :: "9223372036854775808".toList) [] :=
    .negative (n := 9223372036854775808) (List.all_eq_true.1 (by decide)) (by decide) (by decide)
      (by simp)
  have hapart : Apart [.usual .nil legible_return]
      ([' '] ++ ('-' :: "9223372036854775808".toList ++ [])) :=
    ⟨fun d hd => by cases hd; decide, trivial⟩
  exact tokensFrom_of_failsAt (.intro hapart hblank hfaulty)

end Script

/-- Running a script that returns an integer gives the integer and changes nothing. -/
theorem Setting.runChunk_returnsInt (setting : Setting) (source : String) (origin : Option Path)
    (n : Int64) (s : State) :
    setting.runChunk ⟨origin, source, returnsInt n⟩ s = (.ok (.int n), s) := by
  rw [setting.runChunk_eq, Setting.execute]
  rfl

namespace Script

/-- A script that returns the text of an integer is read as the statement that returns it, and
running that gives the integer, for every integer but the least one. The text of the least integer is
refused behind its digits, and no other text is a script that returns it. -/
theorem integer_written_iff (n : Int64) (origin : Option Path) :
    let source := returning (Value.int n).display
    let c : Chunk := ⟨origin, source, returnsInt n⟩
    (Chunk.ofText source origin =
      if n = Int64.minValue then .error ⟨.outOfRange "9223372036854775808", ⟨1, 28⟩⟩ else .ok c) ∧
    (∀ (setting : Setting) (s : State), setting.runChunk c s = (.ok (.int n), s)) ∧
    ((∃ text c', Chunk.ofText text origin = .ok c' ∧
      c'.statements.map (·.action) = [.return (.int n)]) ↔ n ≠ Int64.minValue) := by
  intro source c
  have hsource : source = returning (Text.decimal n) := by
    rw [← Value.display_int]
  have hread : n ≠ Int64.minValue → Chunk.ofText source origin = .ok c := by
    intro hn
    obtain ⟨tokens, p, htokens, hlist⟩ := tokens_of_returning hn
    refine ofText_eq_ok.2 ⟨tokens, returnsInt n, hsource ▸ htokens, ?_, rfl⟩
    rw [hlist, parseStatements_return]
  refine ⟨?_, fun setting s => setting.runChunk_returnsInt source origin n s, ?_, fun hn => ?_⟩
  · split
    · next hleast =>
      subst hleast
      unfold Chunk.ofText
      rw [hsource, tokens_of_least]
      rfl
    · next hn => exact hread hn
  · rintro ⟨text, c', htext, hactions⟩
    have hwell := (wellFormed_of_ofText htext).each (.return (.int n)) (by simp [hactions])
    cases hwell with
    | «return» value =>
      cases value with
      | int fits => exact fits
  · exact ⟨source, c, hread hn, rfl⟩

/-- The text that shows the least integer is an integer of no script. -/
theorem least_integer_unwritten :
    ¬ ∃ c, Chunk.ofText (returning (Value.int Int64.minValue).display) none = .ok c ∧
      c.statements.map (·.action) = [.return (.int Int64.minValue)] := by
  rintro ⟨c, hread, -⟩
  obtain ⟨tokens, _, htokens, _⟩ := ofText_eq_ok.1 hread
  rw [Value.display_int, tokens_of_least] at htokens
  cases htokens

end Script

end ScriptBuild
