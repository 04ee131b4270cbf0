import ScriptBuild.Constant

/-!
# Exports

The symbols that scripts export, in the order of their first definition. A later definition changes
the value and leaves the place. Main statements: `get?_define` and `get?_define_of_ne` say what is
found after a definition, `names_define` that only a new name is added, and `nodup_define` that no
name stands twice.
-/

namespace ScriptBuild

/-- A symbol and its value. -/
structure Export where
  name : String
  value : Constant
  deriving DecidableEq, Repr

/-- The symbols exported so far. -/
abbrev Exports := List Export

namespace Exports

/-- The value of a symbol. -/
def get? (es : Exports) (name : String) : Option Constant :=
  (es.find? (·.name == name)).map (·.value)

/-- The exported names. -/
def names (es : Exports) : List String :=
  es.map (·.name)

/-- The exports with a symbol defined, at its old place or at the end. -/
def define (name : String) (value : Constant) : Exports → Exports
  | [] => [⟨name, value⟩]
  | e :: es => if e.name = name then ⟨name, value⟩ :: es else e :: define name value es

theorem get?_define (name : String) (value : Constant) (es : Exports) :
    get? (define name value es) name = some value := by
  induction es with
  | nil => simp [define, get?]
  | cons e es ih =>
    unfold define
    split
    · simp [get?]
    · next h =>
      have : (e.name == name) = false := by simpa using h
      simpa [get?, List.find?_cons, this] using ih

theorem get?_define_of_ne {name other : String} (h : other ≠ name) (value : Constant)
    (es : Exports) : get? (define name value es) other = get? es other := by
  have hne : (name == other) = false := by simpa using fun e => h e.symm
  induction es with
  | nil => simp [define, get?, hne]
  | cons e es ih =>
    unfold define
    split
    · next he => simp [get?, hne, he]
    · simp only [get?, List.find?_cons] at ih ⊢
      split <;> simp_all

/-- A definition adds its name at the end, unless the name is there. -/
theorem names_define (name : String) (value : Constant) (es : Exports) :
    names (define name value es) = if name ∈ names es then names es else names es ++ [name] := by
  have cons (e : Export) (es : Exports) : names (e :: es) = e.name :: names es := rfl
  induction es with
  | nil => rfl
  | cons e es ih =>
    unfold define
    split
    · next he => rw [cons, cons, he, if_pos List.mem_cons_self]
    · next he =>
      rw [cons, cons, ih]
      by_cases hm : name ∈ names es
      · rw [if_pos hm, if_pos (List.mem_cons_of_mem _ hm)]
      · have : name ∉ e.name :: names es := fun h => (List.mem_cons.1 h).elim (he ·.symm) hm
        rw [if_neg hm, if_neg this, List.cons_append]

/-- A definition keeps the names apart. -/
theorem nodup_define {es : Exports} (h : (names es).Nodup) (name : String) (value : Constant) :
    (names (define name value es)).Nodup := by
  rw [names_define]
  split
  · exact h
  · next hn =>
    refine List.nodup_append.2 ⟨h, by simp, fun a ha b hb => ?_⟩
    rintro rfl
    rw [List.mem_singleton] at hb
    exact hn (hb ▸ ha)

end Exports

end ScriptBuild
