import ScriptBuild.Exports
import ScriptBuild.Proofs.Occurrences

/-!
# Definitions made one after the other

What a table of exports comes to when symbols are defined in it. Main statement: `Tells.becomes`. The
table tells each name once, where it was first defined, and with the value that it was last given.
-/

namespace ScriptBuild.Exports

/-- Definitions, made one after the other, lead from one table to another one. Each value is one that
can be exported. -/
inductive Becomes : Exports → List (String × Value) → Exports → Prop where
  | nil (es : Exports) : Becomes es [] es
  | cons {es fs : Exports} {defs : List (String × Value)} (name : String) (c : Constant)
      (rest : Becomes (es.define name c) defs fs) : Becomes es ((name, c.toValue) :: defs) fs

/-- The table is what the definitions came to. -/
structure Tells (es : Exports) (defs : List (String × Value)) : Prop where
  /-- No name stands twice. -/
  distinct : es.names.Nodup
  /-- The names stand in the order of their first definitions. -/
  order : es.names = (defs.map Prod.fst).eraseDups
  /-- A name has the value of its last definition. -/
  latest : ∀ name, (es.get? name).map Constant.toValue = defs.reverse.lookup name
  /-- Every value that was given has a form outside of scripts. -/
  constant : ∀ d ∈ defs, ∃ c : Constant, d.2 = c.toValue

variable {es fs gs : Exports} {defs more : List (String × Value)}

theorem Becomes.append (h : es.Becomes defs fs) (h' : fs.Becomes more gs) :
    es.Becomes (defs ++ more) gs := by
  induction h with
  | nil => exact h'
  | cons name c _ ih => exact .cons name c (ih h')

theorem tells_nil : Tells [] [] :=
  ⟨List.nodup_nil, rfl, fun _ => rfl, fun _ hd => absurd hd List.not_mem_nil⟩

namespace Tells

/-- The names of the table are those that were defined. -/
theorem mem_names (h : es.Tells defs) {name : String} :
    name ∈ es.names ↔ name ∈ defs.map Prod.fst := by
  rw [h.order, List.mem_eraseDups]

theorem define (h : es.Tells defs) (name : String) (c : Constant) :
    Tells (es.define name c) (defs ++ [(name, c.toValue)]) where
  distinct := nodup_define h.distinct name c
  order := by
    rw [names_define, List.map_append, List.map_singleton]
    by_cases hname : name ∈ defs.map Prod.fst
    · rw [if_pos (h.mem_names.2 hname), eraseDups_concat_of_mem hname]
      exact h.order
    · rw [if_neg fun hin => hname (h.mem_names.1 hin), eraseDups_concat_of_not_mem hname, h.order]
  latest other := by
    rw [List.reverse_concat, List.lookup_cons]
    by_cases hother : other = name
    · rw [hother, get?_define, beq_self_eq_true]
      rfl
    · rw [get?_define_of_ne hother, h.latest, beq_eq_false_iff_ne.2 hother]
  constant d hd := by
    rcases List.mem_append.1 hd with hd | hd
    · exact h.constant d hd
    · exact ⟨c, by rw [List.mem_singleton.1 hd]⟩

/-- Definitions that are made later are told, too. -/
theorem becomes (h : es.Tells defs) (hmore : es.Becomes more fs) : fs.Tells (defs ++ more) := by
  induction hmore generalizing defs with
  | nil es =>
    rw [List.append_nil]
    exact h
  | cons name c _ ih =>
    rw [← List.singleton_append, ← List.append_assoc]
    exact ih (h.define name c)

end Tells

end ScriptBuild.Exports
