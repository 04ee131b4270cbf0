import Mathlib.Data.List.Induction
import ScriptBuild.Script.Position

/-!
# Lines and columns

A position behind a text is told by the line feeds in the text and by the characters behind the last
of them, without going through it character by character. Main statements: `afterAll_start` says that
this is where reading the text leads, and `afterAll_of_not_mem` that a text on one line only moves
the column.
-/

namespace ScriptBuild.Script.Position

/-- The position behind a text. The line is one more than there are line feeds in the text, and the
column one more than there are characters behind the last of them. -/
def behind (cs : List Char) : Position :=
  ⟨1 + cs.count '\n', 1 + (cs.reverse.takeWhile (· ≠ '\n')).length⟩

theorem behind_concat (cs : List Char) (c : Char) : behind (cs ++ [c]) = (behind cs).after c := by
  unfold behind after
  rw [List.reverse_concat, List.count_append]
  by_cases hc : c = '\n'
  · simp [hc]
    omega
  · simp [hc]
    omega

theorem behind_append (as bs : List Char) : behind (as ++ bs) = (behind as).afterAll bs := by
  induction bs using List.reverseRecOn with
  | nil => rw [List.append_nil]; rfl
  | append_singleton bs b ih =>
    rw [← List.append_assoc, behind_concat, ih, afterAll_append]
    rfl

/-- Reading a text leads to the position behind it. -/
theorem afterAll_start (cs : List Char) : start.afterAll cs = behind cs :=
  (behind_append [] cs).symm

/-- A text without a line feed stays on the line. -/
theorem afterAll_of_not_mem {cs : List Char} (h : '\n' ∉ cs) (p : Position) :
    p.afterAll cs = ⟨p.line, p.column + cs.length⟩ := by
  induction cs generalizing p with
  | nil => rfl
  | cons c cs ih =>
    have hc := List.ne_of_not_mem_cons h
    have hcs := List.not_mem_of_not_mem_cons h
    have hafter : p.after c = ⟨p.line, p.column + 1⟩ := if_neg (Ne.symm hc)
    show (p.after c).afterAll cs = _
    rw [ih hcs, hafter, List.length_cons, Nat.add_assoc, Nat.add_comm 1]

/-- Behind a line feed a line begins. -/
theorem afterAll_newline {cs : List Char} (h : '\n' ∉ cs) (p : Position) :
    p.afterAll (cs ++ ['\n']) = ⟨p.line + 1, 1⟩ := by
  rw [afterAll_append, afterAll_of_not_mem h]
  rfl

end ScriptBuild.Script.Position
