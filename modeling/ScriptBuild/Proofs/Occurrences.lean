import Mathlib.Data.List.Nodup
import Mathlib.Data.List.Induction

/-!
# First occurrences

A list without its repetitions has each member where it first occurs. `eraseDups_concat_of_mem` and
`eraseDups_concat_of_not_mem` say what one more member at the end changes.
-/

namespace ScriptBuild

variable {α : Type} [DecidableEq α] {xs : List α} {x : α}

theorem eraseDups_concat_of_mem (h : x ∈ xs) : (xs ++ [x]).eraseDups = xs.eraseDups := by
  have hnone : [x].removeAll xs = [] := by simp [List.removeAll, h]
  rw [List.eraseDups_append, hnone]
  exact List.append_nil _

theorem eraseDups_concat_of_not_mem (h : x ∉ xs) :
    (xs ++ [x]).eraseDups = xs.eraseDups ++ [x] := by
  have hone : [x].removeAll xs = [x] := by simp [List.removeAll, h]
  rw [List.eraseDups_append, hone]
  rfl

theorem nodup_eraseDups (xs : List α) : xs.eraseDups.Nodup := by
  induction xs using List.reverseRecOn with
  | nil => exact List.nodup_nil
  | append_singleton xs x ih =>
    by_cases h : x ∈ xs
    · rwa [eraseDups_concat_of_mem h]
    · rw [eraseDups_concat_of_not_mem h, ← List.concat_eq_append]
      apply ih.concat
      rwa [List.mem_eraseDups]

end ScriptBuild
