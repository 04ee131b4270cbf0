/-!
# Numerals

Digits of a base up to sixteen, the natural numbers and signed numbers that they spell, and the
64-bit integers of the script language. `natural?_decimal` says that a number read from its own
decimal digits is that number, and `word?_eq_some_iff` says which integers fit a word.
-/

namespace ScriptBuild.Text

/-- The value of a digit of some base up to sixteen, letters in either case. -/
def digitValue? (c : Char) : Option Nat :=
  if '0' ≤ c ∧ c ≤ '9' then some (c.toNat - 48)
  else if 'a' ≤ c ∧ c ≤ 'f' then some (c.toNat - 87)
  else if 'A' ≤ c ∧ c ≤ 'F' then some (c.toNat - 55)
  else none

/-- The value of a digit of the given base. -/
def digit? (base : Nat) (c : Char) : Option Nat :=
  (digitValue? c).filter (· < base)

/-- The number that the digits spell after a number already read. -/
def readOn? (base : Nat) : Nat → List Char → Option Nat
  | n, [] => some n
  | n, c :: cs => (digit? base c).bind fun d => readOn? base (base * n + d) cs

/-- The number that one or more digits spell. -/
def natural? (base : Nat) (cs : List Char) : Option Nat :=
  if cs = [] then none else readOn? base 0 cs

/-- The number that a numeral with at most one sign in front spells. -/
def signed? (base : Nat) : List Char → Option Int
  | '-' :: cs => (natural? base cs).map fun n => -(n : Int)
  | '+' :: cs => (natural? base cs).map Int.ofNat
  | cs => (natural? base cs).map Int.ofNat

/-- The 64-bit word that holds a number, if it is in range. -/
def word? (n : Int) : Option Int64 :=
  if h : Int64.minValue.toInt ≤ n ∧ n ≤ Int64.maxValue.toInt then some (Int64.ofIntLE n h.1 h.2)
  else none

/-- A word in decimal, with a sign only if it is negative. -/
def decimal (n : Int64) : String :=
  n.toInt.repr

theorem word?_eq_some_iff {n : Int} {w : Int64} : word? n = some w ↔ w.toInt = n := by
  unfold word?
  constructor
  · intro h
    split at h
    · cases h
      exact Int64.toInt_ofIntLE
    · cases h
  · rintro rfl
    rw [dif_pos ⟨w.minValue_le_toInt, w.toInt_le⟩, Int64.ofIntLE_toInt]

theorem readOn?_eq_of_isDigit {cs : List Char} (h : ∀ c ∈ cs, c.isDigit = true) (n : Nat) :
    readOn? 10 n cs = some (Nat.ofDigitChars 10 cs n) := by
  induction cs generalizing n with
  | nil => simp [readOn?]
  | cons c cs ih =>
    have hc : '0' ≤ c ∧ c ≤ '9' := by
      have := h c (by simp)
      simpa [Char.isDigit, Char.le_def] using this
    have hd : digit? 10 c = some (c.toNat - 48) := by
      have hle : c.toNat ≤ 57 := by
        have := hc.2
        exact this
      simp only [digit?, digitValue?, if_pos hc, Option.filter, decide_eq_true_eq]
      rw [if_pos (by omega)]
    simp only [readOn?, hd, Option.bind_some, Nat.ofDigitChars_cons]
    exact ih (fun d hd => h d (by simp [hd])) _

/-- A natural number is read back from its decimal digits. -/
theorem natural?_decimal (n : Nat) : natural? 10 n.repr.toList = some n := by
  rw [Nat.toList_repr, natural?, if_neg Nat.toDigits_ne_nil,
    readOn?_eq_of_isDigit (fun c hc => Nat.isDigit_of_mem_toDigits (by omega) (by omega) hc),
    Nat.ofDigitChars_ten_toDigits]

end ScriptBuild.Text
