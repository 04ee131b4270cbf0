import ScriptBuild.Path.Basic

/-!
# The module cache

The modules that were loaded, each under its key, in the order in which they were registered. A key
is registered once and keeps its module. Main statements: `get?_register` says what is found after a
registration, and `get?_append` that what was found before is found then.
-/

namespace ScriptBuild

/-- Who loaded a module. -/
inductive ModuleSource where
  /-- The search directories led to this file. -/
  | resolved (file : Path)
  /-- The loader of the runtime had it. -/
  | runtime
  deriving DecidableEq, Repr

/-- A module in the cache. -/
structure CachedModule (α : Type) where
  key : String
  value : α
  source : ModuleSource
  deriving Repr

/-- The modules loaded so far, in the order of their registration. -/
abbrev Cache (α : Type) := List (CachedModule α)

namespace Cache

variable {α : Type}

/-- The module under a key. -/
def get? (c : Cache α) (key : String) : Option (CachedModule α) :=
  c.find? (·.key == key)

/-- The cache with one more module, unless its key is taken. -/
def register? (c : Cache α) (m : CachedModule α) : Option (Cache α) :=
  if (get? c m.key).isSome then none else some (c ++ [m])

/-- A key under which nothing is found is the key of no module in the cache. -/
theorem get?_eq_none_iff {c : Cache α} {key : String} :
    get? c key = none ↔ key ∉ c.map (·.key) := by
  rw [get?, List.find?_eq_none]
  simp

/-- What is found under a key is a module of the cache, with that key. -/
theorem mem_of_get? {c : Cache α} {m : CachedModule α} {key : String} (h : get? c key = some m) :
    m ∈ c ∧ m.key = key := by
  rw [get?] at h
  exact ⟨List.mem_of_find?_eq_some h, by simpa using List.find?_some h⟩

theorem get?_register {c d : Cache α} {m : CachedModule α} (h : register? c m = some d) :
    get? d m.key = some m := by
  unfold register? at h
  split at h
  · cases h
  · next hn =>
    cases h
    have : c.find? (·.key == m.key) = none := by simpa [get?] using hn
    simp [get?, List.find?_append, this]

/-- Modules that are added hide none that is in the cache. -/
theorem get?_append {c : Cache α} {m : CachedModule α} {key : String} (h : get? c key = some m)
    (more : Cache α) : get? (c ++ more) key = some m := by
  rw [get?] at h ⊢
  rw [List.find?_append, h, Option.some_or]

end Cache

end ScriptBuild
