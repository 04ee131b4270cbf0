/-!
# Word arithmetic

Integers are words of 64 bits. The least word has no negative, and how a program is built decides
what negating it comes to: in checked arithmetic the program stops there, in wrapping arithmetic it
goes on with the least word itself. Main statement: `negate_eq_error_iff`.
-/

namespace ScriptBuild

/-- What arithmetic does with a result that is no word. -/
inductive Arithmetic where
  /-- The program stops. -/
  | checked
  /-- The result wraps around. -/
  | wrapping
  deriving DecidableEq, Repr

/-- The program stopped because a result was no word. -/
structure Overflow where
  deriving DecidableEq, Repr

namespace Arithmetic

variable {a : Arithmetic} {v w : Int64}

/-- The negative of a word. -/
def negate (a : Arithmetic) (w : Int64) : Except Overflow Int64 :=
  if a = checked ∧ w = Int64.minValue then .error ⟨⟩ else .ok (-w)

theorem negate_eq_error_iff {o : Overflow} :
    a.negate w = .error o ↔ a = checked ∧ w = Int64.minValue := by
  by_cases least : a = checked ∧ w = Int64.minValue <;> simp only [negate, least] <;> simp

theorem negate_eq_ok_iff :
    a.negate w = .ok v ↔ ¬ (a = checked ∧ w = Int64.minValue) ∧ -w = v := by
  by_cases least : a = checked ∧ w = Int64.minValue <;> simp only [negate, least] <;> simp

theorem negate_of_ne (h : w ≠ Int64.minValue) : a.negate w = .ok (-w) :=
  negate_eq_ok_iff.2 ⟨fun least => h least.2, rfl⟩

theorem negate_wrapping (w : Int64) : wrapping.negate w = .ok (-w) :=
  negate_eq_ok_iff.2 ⟨fun least => Arithmetic.noConfusion least.1, rfl⟩

end Arithmetic

end ScriptBuild
