/-!
# Fields

What a table holds: values under keys, each key once, in ascending order of the keys. Main
statements: `get?_insert` and `get?_insert_of_ne` say what is found after an insertion, and
`Sorted.insert` that an insertion keeps the order.
-/

namespace ScriptBuild

/-- Values under keys. -/
abbrev Fields (α : Type) := List (String × α)

namespace Fields

variable {α : Type}

/-- The keys ascend, so none stands twice. -/
def Sorted (fs : Fields α) : Prop :=
  fs.Pairwise fun x y => x.1 < y.1

/-- The value under a key. -/
def get? (fs : Fields α) (key : String) : Option α :=
  fs.lookup key

/-- The fields with a value under a key, in place of any other. -/
def insert (key : String) (value : α) : Fields α → Fields α
  | [] => [(key, value)]
  | (k, v) :: rest =>
    if key < k then (key, value) :: (k, v) :: rest
    else if key = k then (key, value) :: rest
    else (k, v) :: insert key value rest

/-- The fields with others put over them; the later value of a key wins. -/
def merge (fs : Fields α) (more : List (String × α)) : Fields α :=
  more.foldl (fun acc x => insert x.1 x.2 acc) fs

/-- The fields of a list of keys and values in which the later value of a key wins. -/
def ofList (xs : List (String × α)) : Fields α :=
  merge [] xs

theorem get?_insert (key : String) (value : α) (fs : Fields α) :
    get? (insert key value fs) key = some value := by
  induction fs with
  | nil => simp [insert, get?]
  | cons x rest ih =>
    obtain ⟨k, v⟩ := x
    unfold insert
    split
    · simp [get?]
    · split
      · simp [get?]
      · next h =>
        have : (key == k) = false := by simpa using h
        simpa [get?, List.lookup_cons, this] using ih

theorem get?_insert_of_ne {key other : String} (h : other ≠ key) (value : α) (fs : Fields α) :
    get? (insert key value fs) other = get? fs other := by
  have hne : (other == key) = false := by simpa using h
  induction fs with
  | nil => simp [insert, get?, List.lookup_cons, hne]
  | cons x rest ih =>
    obtain ⟨k, v⟩ := x
    unfold insert
    split
    · simp only [get?, List.lookup_cons, hne]
    · split
      · next hk => simp only [get?, List.lookup_cons, hne, ← hk]
      · simp only [get?, List.lookup_cons] at ih ⊢
        split <;> simp_all

theorem mem_insert {key : String} {value : α} {fs : Fields α} {x : String × α}
    (h : x ∈ insert key value fs) : x = (key, value) ∨ x ∈ fs := by
  induction fs with
  | nil => simpa [insert] using h
  | cons y rest ih =>
    obtain ⟨k, v⟩ := y
    unfold insert at h
    split at h
    · simpa using h
    · split at h
      · rcases List.mem_cons.1 h with h | h
        · exact .inl h
        · exact .inr (List.mem_cons_of_mem _ h)
      · rcases List.mem_cons.1 h with h | h
        · exact .inr (by simp [h])
        · rcases ih h with h | h
          · exact .inl h
          · exact .inr (List.mem_cons_of_mem _ h)

/-- An insertion keeps the keys ascending. -/
theorem Sorted.insert {fs : Fields α} (h : Sorted fs) (key : String) (value : α) :
    Sorted (Fields.insert key value fs) := by
  induction fs with
  | nil => simp [Sorted, Fields.insert]
  | cons x rest ih =>
    obtain ⟨k, v⟩ := x
    have hk := List.pairwise_cons.1 h
    unfold Fields.insert
    split
    · next hlt =>
      refine List.pairwise_cons.2 ⟨fun y hy => ?_, h⟩
      rcases List.mem_cons.1 hy with rfl | hy
      · exact hlt
      · exact String.lt_trans hlt (hk.1 y hy)
    · split
      · next heq => exact List.pairwise_cons.2 ⟨fun y hy => heq ▸ hk.1 y hy, hk.2⟩
      · next hnlt hne =>
        refine List.pairwise_cons.2 ⟨fun y hy => ?_, ih hk.2⟩
        rcases mem_insert hy with rfl | hy
        · rcases Decidable.em (k < key) with h | h
          · exact h
          · exact absurd (String.le_antisymm (String.not_lt.1 h) (String.not_lt.1 hnlt)) hne
        · exact hk.1 y hy

end Fields

end ScriptBuild
