import Mathlib.Data.List.Induction
import ScriptBuild.Header.Scan

/-!
# The constants of definitions

Definitions are processed one after the other, each in sight of the constants so far. None of them
means different constants in different arithmetics: if it does not overflow, it means the one that it
means in wrapping arithmetic (`literal?_of_constant?`). Main statements: `get?_constantsOf` says which
constant a name has then, without a table, and `value?_eq_some_iff` that it is that of the last of
its definitions that gives one.
-/

namespace ScriptBuild.Header

/-- A name and the body that defines it. -/
abbrev Definition := String × List Char

/-- The constant that a body spells in wrapping arithmetic, where no body overflows. -/
def literal? (body : List Char) : Option Constant :=
  (constant? .wrapping body).toOption.join

/-- The constants after one more definition. -/
def withDefinition (constants : Fields Constant) (d : Definition) : Fields Constant :=
  (HeaderScan.defineAs ⟨constants, []⟩ d.1 d.2 (literal? d.2)).constants

/-- The constants of definitions, processed one after the other. -/
def constantsOf (definitions : List Definition) : Fields Constant :=
  definitions.foldl withDefinition []

/-- The constant that a name has behind definitions, the last of them first. -/
def value? : List Definition → String → Option Constant
  | [], _ => none
  | (key, body) :: before, name =>
    if key = name then
      ((literal? body).or (value? before (String.ofList body))).or (value? before name)
    else value? before name

/-- The constant that a body means behind definitions: the literal that it is, or else the constant
that it names at that point. -/
def meaning? (before : List Definition) (body : List Char) : Option Constant :=
  (literal? body).or (value? before.reverse (String.ofList body))

/-- The constant is that of the last definition of the name whose body means one. -/
def Prevails (definitions : List Definition) (name : String) (c : Constant) : Prop :=
  ∃ before body after, definitions = before ++ (name, body) :: after ∧
    meaning? before body = some c ∧
    ∀ passed other later, after = passed ++ (name, other) :: later →
      meaning? (before ++ (name, body) :: passed) other = none

section Literal

variable {a : Arithmetic} {body : List Char}

theorem integer?_wrapping {v : Option Int64} (h : integer? a body = .ok v) :
    integer? .wrapping body = .ok v := by
  unfold integer? at h ⊢
  dsimp only at h ⊢
  split
  · next hnone =>
    rw [hnone] at h
    exact h
  · next w hword =>
    rw [hword] at h
    dsimp only at h
    split
    · next hminus =>
      rw [if_pos hminus] at h
      cases hneg : a.negate w with
      | error o =>
        rw [hneg] at h
        cases h
      | ok negative =>
        rw [hneg] at h
        rw [Arithmetic.negate_wrapping, (Arithmetic.negate_eq_ok_iff.1 hneg).2]
        exact h
    · next hplain =>
      rw [if_neg hplain] at h
      exact h

theorem constant?_wrapping {c : Option Constant} (h : constant? a body = .ok c) :
    constant? .wrapping body = .ok c := by
  fun_induction constant? a body with
  | case1 body inner hparen _ ih =>
    rw [constant?]
    split
    · next other hother =>
      cases hparen.symm.trans hother
      exact ih h
    · next hnone => cases hparen.symm.trans hnone
  | case2 body hparen text hquote =>
    rw [constant?]
    split
    · next inner hinner => cases hparen.symm.trans hinner
    · rw [hquote]
      exact h
  | case3 body hparen hquote =>
    rw [constant?]
    split
    · next inner hinner => cases hparen.symm.trans hinner
    · rw [hquote]
      cases hint : integer? a body with
      | error o =>
        rw [hint] at h
        cases h
      | ok v =>
        rw [hint] at h
        dsimp only
        rw [integer?_wrapping hint]
        exact h

/-- A body that does not overflow is the constant that it is in wrapping arithmetic. -/
theorem literal?_of_constant? {c : Option Constant} (h : constant? a body = .ok c) :
    literal? body = c := by
  rw [literal?, constant?_wrapping h]
  rfl

end Literal

variable {ds : List Definition} {name key : String} {body : List Char} {c d : Constant}

theorem defineAs_eq (scan : HeaderScan) (name : String) (body : List Char) :
    scan.defineAs name body (literal? body) =
      ⟨withDefinition scan.constants (name, body), scan.files⟩ := by
  unfold withDefinition HeaderScan.defineAs
  dsimp only
  split <;> rfl

theorem define_eq {a : Arithmetic} {scan defined : HeaderScan}
    (h : scan.define a name body = .ok defined) :
    defined = ⟨withDefinition scan.constants (name, body), scan.files⟩ := by
  unfold HeaderScan.define at h
  cases hconstant : constant? a body with
  | error o =>
    rw [hconstant] at h
    cases h
  | ok literal =>
    rw [hconstant] at h
    cases h
    rw [← literal?_of_constant? hconstant]
    exact defineAs_eq scan name body

/-- A definition overflows just when its body does. -/
theorem define_eq_error_iff {a : Arithmetic} {scan : HeaderScan} {o : Overflow} :
    scan.define a name body = .error o ↔ constant? a body = .error o := by
  unfold HeaderScan.define
  cases constant? a body with
  | error o' => exact iff_of_true rfl rfl
  | ok literal =>
    constructor
    all_goals
      intro h
      cases h

theorem get?_withDefinition (constants : Fields Constant) (key : String) (body : List Char)
    (name : String) :
    Fields.get? (withDefinition constants (key, body)) name =
      if key = name then
        ((literal? body).or (Fields.get? constants (String.ofList body))).or
          (Fields.get? constants name)
      else Fields.get? constants name := by
  simp only [withDefinition, HeaderScan.defineAs]
  cases hmeaning : (literal? body).or (Fields.get? constants (String.ofList body)) with
  | none => simp
  | some c =>
    by_cases hkey : key = name
    · rw [if_pos hkey, ← hkey]
      exact Fields.get?_insert _ _ _
    · rw [if_neg hkey]
      exact Fields.get?_insert_of_ne (Ne.symm hkey) _ _

theorem constantsOf_concat (ds : List Definition) (d : Definition) :
    constantsOf (ds ++ [d]) = withDefinition (constantsOf ds) d := by
  rw [constantsOf, List.foldl_append]
  rfl

/-- What is found under a name after definitions were processed. -/
theorem get?_constantsOf (ds : List Definition) (name : String) :
    Fields.get? (constantsOf ds) name = value? ds.reverse name := by
  induction ds using List.reverseRecOn generalizing name with
  | nil => rfl
  | append_singleton ds d ih =>
    rw [constantsOf_concat, get?_withDefinition, ih, ih, List.reverse_concat, value?]

theorem sorted_constantsOf (ds : List Definition) : Fields.Sorted (constantsOf ds) := by
  induction ds using List.reverseRecOn with
  | nil => exact List.Pairwise.nil
  | append_singleton ds d ih =>
    rw [constantsOf_concat]
    unfold withDefinition HeaderScan.defineAs
    split
    · exact ih.insert _ _
    · exact ih

theorem value?_concat_self (h : meaning? ds body = some c) :
    value? (ds ++ [(name, body)]).reverse name = some c := by
  unfold meaning? at h
  rw [List.reverse_concat, value?, if_pos rfl, h]
  rfl

theorem value?_concat_of_none (h : key = name → meaning? ds body = none) :
    value? (ds ++ [(key, body)]).reverse name = value? ds.reverse name := by
  unfold meaning? at h
  rw [List.reverse_concat, value?]
  split
  · next hkey =>
    rw [h hkey]
    rfl
  · rfl

/-- A list that ends in `x` is cut at its end or in front of it. -/
theorem concat_eq_append_cons_iff {α : Type} {xs before after : List α} {x y : α} :
    xs ++ [x] = before ++ y :: after ↔
      (after = [] ∧ before = xs ∧ y = x) ∨
        ∃ rest, after = rest ++ [x] ∧ xs = before ++ y :: rest := by
  constructor
  · intro h
    obtain rfl | ⟨rest, last, rfl⟩ := List.eq_nil_or_concat after
    · obtain ⟨hxs, hx⟩ := List.append_inj' h rfl
      exact .inl ⟨rfl, hxs.symm, (List.head_eq_of_cons_eq hx).symm⟩
    · rw [List.concat_eq_append, ← List.cons_append, ← List.append_assoc] at h
      obtain ⟨hxs, hx⟩ := List.append_inj' h rfl
      rw [List.concat_eq_append, hx]
      exact .inr ⟨rest, rfl, hxs⟩
  · rintro (⟨rfl, rfl, rfl⟩ | ⟨rest, rfl, rfl⟩) <;> simp

theorem prevails_concat_self (h : meaning? ds body = some d) :
    Prevails (ds ++ [(name, body)]) name c ↔ c = d := by
  constructor
  · rintro ⟨before, other, after, heq, hmeaning, hlast⟩
    obtain ⟨rfl, rfl, hself⟩ | ⟨rest, rfl, rfl⟩ := concat_eq_append_cons_iff.1 heq
    · cases hself
      rw [h] at hmeaning
      exact (Option.some.inj hmeaning).symm
    · rw [hlast rest body [] rfl] at h
      cases h
  · rintro rfl
    refine ⟨ds, body, [], rfl, h, ?_⟩
    intro passed other later heq
    simp at heq

theorem prevails_concat_of_none (h : key = name → meaning? ds body = none) :
    Prevails (ds ++ [(key, body)]) name c ↔ Prevails ds name c := by
  constructor
  · rintro ⟨before, other, after, heq, hmeaning, hlast⟩
    obtain ⟨rfl, rfl, hself⟩ | ⟨rest, rfl, rfl⟩ := concat_eq_append_cons_iff.1 heq
    · cases hself
      rw [h rfl] at hmeaning
      cases hmeaning
    · refine ⟨before, other, rest, rfl, hmeaning, ?_⟩
      rintro passed more later rfl
      apply hlast passed more (later ++ [(key, body)])
      simp
  · rintro ⟨before, other, after, rfl, hmeaning, hlast⟩
    refine ⟨before, other, after ++ [(key, body)], by simp, hmeaning, ?_⟩
    intro passed more later heq
    obtain ⟨rfl, rfl, hself⟩ | ⟨rest, rfl, rfl⟩ := concat_eq_append_cons_iff.1 heq
    · cases hself
      exact h rfl
    · exact hlast passed more rest rfl

/-- A name has the constant of the last of its definitions that gives one. -/
theorem value?_eq_some_iff : value? ds.reverse name = some c ↔ Prevails ds name c := by
  induction ds using List.reverseRecOn with
  | nil =>
    constructor
    · intro h
      cases h
    · rintro ⟨before, body, after, heq, _⟩
      simp at heq
  | append_singleton ds d ih =>
    obtain ⟨key, body⟩ := d
    by_cases hkey : key = name
    · subst hkey
      cases hmeaning : meaning? ds body with
      | some d =>
        rw [value?_concat_self hmeaning, prevails_concat_self hmeaning, Option.some.injEq]
        exact eq_comm
      | none =>
        rw [value?_concat_of_none fun _ => hmeaning, prevails_concat_of_none fun _ => hmeaning]
        exact ih
    · rw [value?_concat_of_none fun h => absurd h hkey,
        prevails_concat_of_none fun h => absurd h hkey]
      exact ih

end ScriptBuild.Header
