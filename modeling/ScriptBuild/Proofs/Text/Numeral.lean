import Mathlib.Data.List.Forall2
import Mathlib.Data.Nat.Digits.Defs
import ScriptBuild.Text.Numeral

/-!
# What digits spell

A number is spelled by digits of a base, the one of the highest value first. Main statements:
`natural?_eq_some_iff` says that this is how digits are read, and `signed?_eq_some_iff` that one
sign may stand in front of them.
-/

namespace ScriptBuild.Text

variable {base n : Nat} {c : Char} {ds : List Char}

/-- The text is one or more digits of the base, and they spell the number. -/
structure Digits (base : Nat) (ds : List Char) (n : Nat) : Prop where
  ne_nil : ds ≠ []
  value : ∃ values, List.Forall₂ (fun d v => digit? base d = some v) ds values ∧
    Nat.ofDigits base values.reverse = n

theorem ofDigits_reverse (base : Nat) (values : List Nat) :
    Nat.ofDigits base values.reverse = values.foldl (fun n v => base * n + v) 0 := by
  rw [Nat.ofDigits_eq_foldr, List.foldr_reverse]
  congr
  funext n v
  simp [Nat.add_comm]

theorem readOn?_eq_some_iff {m : Nat} :
    readOn? base m ds = some n ↔
      ∃ values, List.Forall₂ (fun d v => digit? base d = some v) ds values ∧
        values.foldl (fun n v => base * n + v) m = n := by
  induction ds generalizing m with
  | nil => simp [readOn?, List.forall₂_nil_left_iff]
  | cons d ds ih =>
    simp only [readOn?, Option.bind_eq_some_iff, ih, List.forall₂_cons_left_iff]
    constructor
    · rintro ⟨v, hv, values, hvalues, hfold⟩
      exact ⟨v :: values, ⟨v, values, hv, hvalues, rfl⟩, hfold⟩
    · rintro ⟨_, ⟨v, values, hv, hvalues, rfl⟩, hfold⟩
      exact ⟨v, hv, values, hvalues, hfold⟩

/-- One or more digits are read as the number that they spell. -/
theorem natural?_eq_some_iff : natural? base ds = some n ↔ Digits base ds n := by
  unfold natural?
  constructor
  · intro h
    split at h
    · cases h
    · next hne =>
      obtain ⟨values, hvalues, hfold⟩ := readOn?_eq_some_iff.1 h
      exact ⟨hne, values, hvalues, (ofDigits_reverse base values).trans hfold⟩
  · rintro ⟨hne, values, hvalues, hvalue⟩
    rw [if_neg hne]
    exact readOn?_eq_some_iff.2 ⟨values, hvalues, (ofDigits_reverse base values).symm.trans hvalue⟩

theorem Digits.isSome (h : Digits base ds n) : ∀ d ∈ ds, (digit? base d).isSome = true := by
  obtain ⟨_, values, hvalues, _⟩ := h
  clear * - hvalues
  induction hvalues with
  | nil => simp
  | cons hv _ ih =>
    intro d hd
    rcases List.mem_cons.1 hd with rfl | hd
    · rw [hv]
      rfl
    · exact ih d hd

/-- A character that is a digit in none of the bases. -/
theorem digit?_of_digitValue? (h : digitValue? c = none) (base : Nat) : digit? base c = none := by
  rw [digit?, h]
  rfl

/-- Digits hold no character that is no digit. -/
theorem Digits.not_mem (h : Digits base ds n) (hc : digitValue? c = none) : c ∉ ds := by
  intro hmem
  have hsome := h.isSome c hmem
  rw [digit?_of_digitValue? hc] at hsome
  cases hsome

/-- A sign that may stand in front of digits. -/
inductive Sign where
  | none
  | plus
  | minus
  deriving DecidableEq, Repr

/-- The text of a sign. -/
def Sign.chars : Sign → List Char
  | none => []
  | plus => ['+']
  | minus => ['-']

/-- The number that digits with a sign in front of them spell. -/
def Sign.apply : Sign → Nat → Int
  | minus, n => -n
  | _, n => n

theorem signed?_minus (base : Nat) (cs : List Char) :
    signed? base ('-' :: cs) = Option.map (fun n : Nat => -(n : Int)) (natural? base cs) := by
  simp only [signed?]
  cases natural? base cs <;> rfl

/-- Digits with at most one sign in front are read as the number that they spell. -/
theorem signed?_eq_some_iff {cs : List Char} {k : Int} :
    signed? base cs = some k ↔
      ∃ sign ds n, cs = Sign.chars sign ++ ds ∧ Digits base ds n ∧ sign.apply n = k := by
  have hminus : digitValue? '-' = none := by decide
  have hplus : digitValue? '+' = none := by decide
  constructor
  · intro h
    by_cases hsign : ∃ ds, cs = '-' :: ds
    · obtain ⟨ds, rfl⟩ := hsign
      rw [signed?_minus] at h
      obtain ⟨n, hn, rfl⟩ := Option.map_eq_some_iff.1 h
      exact ⟨.minus, ds, n, rfl, natural?_eq_some_iff.1 hn, rfl⟩
    · unfold signed? at h
      split at h
      · next ds => exact absurd ⟨ds, rfl⟩ hsign
      · next ds =>
        obtain ⟨n, hn, rfl⟩ := Option.map_eq_some_iff.1 h
        exact ⟨.plus, ds, n, rfl, natural?_eq_some_iff.1 hn, rfl⟩
      · obtain ⟨n, hn, rfl⟩ := Option.map_eq_some_iff.1 h
        exact ⟨.none, cs, n, rfl, natural?_eq_some_iff.1 hn, rfl⟩
  · rintro ⟨sign, ds, n, rfl, hdigits, rfl⟩
    have hread := natural?_eq_some_iff.2 hdigits
    cases sign with
    | minus =>
      rw [Sign.chars, List.singleton_append, signed?_minus, hread]
      rfl
    | plus => simp [signed?, Sign.chars, Sign.apply, hread]
    | none =>
      rw [Sign.chars, List.nil_append]
      unfold signed?
      split
      · exact absurd List.mem_cons_self (hdigits.not_mem hminus)
      · exact absurd List.mem_cons_self (hdigits.not_mem hplus)
      · rw [hread]
        rfl

end ScriptBuild.Text
