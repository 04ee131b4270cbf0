import Mathlib
import ScriptBuild.FileSystem.Build
import ScriptBuild.Header.Scan
import ScriptBuild.Proofs.Text.Numeral

/-!
# Integers of a header

An integer is written in one of three bases, perhaps with a minus sign in front and with suffix
letters behind. Behind the mark of base eight or sixteen a second sign may stand, which no grammar
of headers has. Main statement: `integer_read_iff`, which says exactly what is read and as which
word, and which bodies overflow in checked arithmetic.
-/

namespace ScriptBuild.Header

open Text

/-- A number is written in decimal, or in octal or hexadecimal behind the mark of the base. The sign
stands behind that mark. -/
inductive Numeral (sign : Sign) : List Char → Nat → Prop where
  | hexadecimal {x : Char} {ds : List Char} {n : Nat} (mark : x = 'x' ∨ x = 'X')
      (digits : Digits 16 ds n) : Numeral sign ('0' :: x :: (sign.chars ++ ds)) n
  | octal {ds : List Char} {n : Nat} (digits : Digits 8 ds n) :
      Numeral sign ('0' :: (sign.chars ++ ds)) n
  | decimal {ds : List Char} {n : Nat} (unsigned : sign = .none) (digits : Digits 10 ds n)
      (first : ds = ['0'] ∨ ds.head? ≠ some '0') : Numeral sign ds n

/-- A body is a numeral and suffix letters, perhaps behind a minus sign and blanks. -/
inductive Written (sign : Sign) (n : Nat) : Bool → List Char → Prop where
  | plain {numeral letters : List Char} (number : Numeral sign numeral n)
      (suffix : ∀ c ∈ letters, isSuffix c = true) : Written sign n false (numeral ++ letters)
  | negated {gap numeral letters : List Char} (blanks : ∀ c ∈ gap, isBlank c = true)
      (number : Numeral sign numeral n) (suffix : ∀ c ∈ letters, isSuffix c = true) :
      Written sign n true ('-' :: (gap ++ (numeral ++ letters)))

section Digits

variable {base n : Nat} {c : Char} {ds : List Char}

theorem toNat_of_digit? {v : Nat} (h : digit? base c = some v) :
    48 ≤ c.toNat ∧ c.toNat ≤ 102 := by
  obtain ⟨hvalue, _⟩ := Option.filter_eq_some_iff.1 h
  have hle : ∀ a b : Char, a ≤ b ↔ a.toNat ≤ b.toNat := fun _ _ => Iff.rfl
  simp only [digitValue?, hle] at hvalue
  split at hvalue
  · next hc => exact ⟨hc.1, hc.2.trans (by decide)⟩
  · split at hvalue
    · next hc => exact ⟨le_trans (by decide) hc.1, hc.2⟩
    · split at hvalue
      · next hc => exact ⟨le_trans (by decide) hc.1, hc.2.trans (by decide)⟩
      · cases hvalue

/-- Suffix letters are digits in none of the bases. -/
theorem digitValue?_of_isSuffix (h : isSuffix c = true) : digitValue? c = none := by
  simp only [isSuffix, Bool.or_eq_true, beq_iff_eq] at h
  rcases h with ((rfl | rfl) | rfl) | rfl <;> decide

theorem digits_concat (h : Digits base ds n) :
    ∃ before d, ds = before ++ [d] ∧ isSuffix d = false := by
  refine ⟨_, _, (List.dropLast_concat_getLast h.ne_nil).symm, ?_⟩
  rw [← Bool.not_eq_true]
  intro hsuffix
  exact h.not_mem (digitValue?_of_isSuffix hsuffix) (List.getLast_mem h.ne_nil)

theorem digits_cons (h : Digits base ds n) :
    ∃ d more, ds = d :: more ∧ 48 ≤ d.toNat ∧ d.toNat ≤ 102 := by
  obtain ⟨d, more, rfl⟩ := List.exists_cons_of_ne_nil h.ne_nil
  obtain ⟨v, hv⟩ := Option.isSome_iff_exists.1 (h.isSome d List.mem_cons_self)
  exact ⟨d, more, rfl, toNat_of_digit? hv⟩

end Digits

section Numeral

variable {sign : Sign} {n : Nat} {cs : List Char}

/-- A numeral ends in a digit, so no suffix letter belongs to it. -/
theorem Numeral.ends (h : Numeral sign cs n) :
    ∃ before d, cs = before ++ [d] ∧ isSuffix d = false := by
  cases h with
  | @hexadecimal x _ _ _ digits =>
    obtain ⟨before, d, rfl, hd⟩ := digits_concat digits
    exact ⟨'0' :: x :: (sign.chars ++ before), d, by simp, hd⟩
  | octal digits =>
    obtain ⟨before, d, rfl, hd⟩ := digits_concat digits
    exact ⟨'0' :: (sign.chars ++ before), d, by simp, hd⟩
  | decimal _ digits => exact digits_concat digits

/-- A numeral begins with a digit. -/
theorem Numeral.starts (h : Numeral sign cs n) :
    ∃ d more, cs = d :: more ∧ 48 ≤ d.toNat ∧ d.toNat ≤ 102 := by
  cases h with
  | hexadecimal => exact ⟨_, _, rfl, by decide⟩
  | octal => exact ⟨_, _, rfl, by decide⟩
  | decimal _ digits => exact digits_cons digits

/-- The first character behind the mark of base eight is not the mark of base sixteen. -/
theorem exists_signed_cons {ds : List Char} (sign : Sign) (digits : Digits 8 ds n) :
    ∃ d more, sign.chars ++ ds = d :: more ∧ d ≠ 'x' ∧ d ≠ 'X' := by
  cases sign with
  | none =>
    obtain ⟨d, more, rfl⟩ := List.exists_cons_of_ne_nil digits.ne_nil
    refine ⟨d, more, rfl, ?_, ?_⟩ <;> rintro rfl
    · exact digits.not_mem (by decide) List.mem_cons_self
    · exact digits.not_mem (by decide) List.mem_cons_self
  | plus => exact ⟨'+', ds, rfl, by decide, by decide⟩
  | minus => exact ⟨'-', ds, rfl, by decide, by decide⟩

theorem magnitude?_octal {d : Char} (more : List Char) (hx : d ≠ 'x') (hX : d ≠ 'X') :
    magnitude? ('0' :: d :: more) = signed? 8 (d :: more) := by
  unfold magnitude?
  split
  · next heq => exact absurd (List.cons.inj (List.cons.inj heq).2).1 hx
  · next heq => exact absurd (List.cons.inj (List.cons.inj heq).2).1 hX
  · next heq =>
    obtain ⟨rfl, rfl⟩ := List.cons.inj (List.cons.inj heq).2
    rfl
  · next hnot => exact absurd rfl (hnot d more)

theorem magnitude?_decimal (h : cs = ['0'] ∨ cs.head? ≠ some '0') :
    magnitude? cs = (natural? 10 cs).map Int.ofNat := by
  rcases h with rfl | h
  · rfl
  · unfold magnitude?
    split
    · exact absurd rfl h
    · exact absurd rfl h
    · exact absurd rfl h
    · rfl

/-- A numeral is read as the number that it writes, with the sign behind its mark. -/
theorem magnitude?_eq_some_iff {k : Int} :
    magnitude? cs = some k ↔ ∃ sign n, Numeral sign cs n ∧ sign.apply n = k := by
  constructor
  · intro h
    unfold magnitude? at h
    split at h
    · obtain ⟨sign, ds, n, rfl, digits, rfl⟩ := signed?_eq_some_iff.1 h
      exact ⟨sign, n, .hexadecimal (.inl rfl) digits, rfl⟩
    · obtain ⟨sign, ds, n, rfl, digits, rfl⟩ := signed?_eq_some_iff.1 h
      exact ⟨sign, n, .hexadecimal (.inr rfl) digits, rfl⟩
    · obtain ⟨sign, ds, n, hcs, digits, rfl⟩ := signed?_eq_some_iff.1 h
      rw [hcs]
      exact ⟨sign, n, .octal digits, rfl⟩
    · next hx hX hzero =>
      obtain ⟨n, hn, rfl⟩ := Option.map_eq_some_iff.1 h
      refine ⟨.none, n, .decimal rfl (natural?_eq_some_iff.1 hn) ?_, rfl⟩
      rcases cs with _ | ⟨c, _ | ⟨d, cs⟩⟩
      · exact .inr (by simp)
      · by_cases hc : c = '0'
        · exact .inl (by rw [hc])
        · exact .inr (by simpa using hc)
      · refine .inr fun hc => ?_
        rw [List.head?_cons, Option.some_inj] at hc
        exact hzero d cs (by rw [hc])
  · rintro ⟨sign, n, hnumeral, rfl⟩
    cases hnumeral with
    | hexadecimal mark digits =>
      rcases mark with rfl | rfl <;> exact signed?_eq_some_iff.2 ⟨sign, _, n, rfl, digits, rfl⟩
    | octal digits =>
      obtain ⟨d, more, hcons, hx, hX⟩ := exists_signed_cons sign digits
      rw [hcons, magnitude?_octal more hx hX, ← hcons]
      exact signed?_eq_some_iff.2 ⟨sign, _, n, rfl, digits, rfl⟩
    | decimal unsigned digits first =>
      rw [magnitude?_decimal first, natural?_eq_some_iff.2 digits, unsigned]
      rfl

end Numeral

/-- A text without the suffix letters at its end. -/
def withoutSuffix (cs : List Char) : List Char :=
  cs.rdropWhile isSuffix

theorem withoutSuffix_append {sign : Sign} {n : Nat} {numeral letters : List Char}
    (number : Numeral sign numeral n) (suffix : ∀ c ∈ letters, isSuffix c = true) :
    withoutSuffix (numeral ++ letters) = numeral := by
  obtain ⟨before, d, rfl, hd⟩ := number.ends
  have hletters : ∀ c ∈ letters.reverse, isSuffix c = true := fun c hc =>
    suffix c (List.mem_reverse.1 hc)
  unfold withoutSuffix List.rdropWhile
  rw [List.reverse_append, List.dropWhile_append_of_pos hletters, List.reverse_append,
    List.reverse_singleton, List.singleton_append, List.dropWhile_cons_of_neg (by simp [hd])]
  simp

/-- The word that reading a body negates, if the body begins with a minus sign. -/
def negated? (body : List Char) : Option Int64 :=
  if body.head? == some '-' then (magnitude? (withoutSuffix (trimStart body.tail))).bind word?
  else none

section Arithmetic

variable {a : Arithmetic} {o : Overflow} {cs : List Char} {v w : Int64}

theorem integer?_of_minus (h : negated? ('-' :: cs) = some w) :
    integer? a ('-' :: cs) = (a.negate w).map some := by
  have hword : (magnitude? ((trimStart cs).reverse.dropWhile isSuffix).reverse).bind word? =
      some w := h
  simp only [integer?, List.head?_cons, BEq.rfl, if_true, List.tail_cons, hword]

theorem integer?_of_minus_none (h : negated? ('-' :: cs) = none) :
    integer? a ('-' :: cs) = .ok none := by
  have hword : (magnitude? ((trimStart cs).reverse.dropWhile isSuffix).reverse).bind word? =
      none := h
  simp only [integer?, List.head?_cons, BEq.rfl, if_true, List.tail_cons, hword]

theorem integer?_of_plain {body : List Char} (h : body.head? ≠ some '-') :
    integer? a body = .ok ((magnitude? (withoutSuffix body)).bind word?) := by
  have hhead : (body.head? == some '-') = false := by simpa using h
  have hsuffix : withoutSuffix body = (body.reverse.dropWhile isSuffix).reverse := rfl
  simp only [integer?, hhead, hsuffix, Bool.false_eq_true, if_false]
  cases (magnitude? (body.reverse.dropWhile isSuffix).reverse).bind word? <;> rfl

theorem negate_map_eq_ok : (a.negate w).map some = .ok (some v) ↔ a.negate w = .ok v := by
  cases a.negate w <;> simp [Except.map]

theorem negate_map_eq_error : (a.negate w).map some = .error o ↔ a.negate w = .error o := by
  cases a.negate w <;> simp [Except.map]

end Arithmetic

section Body

variable {a : Arithmetic} {o : Overflow} {sign : Sign} {n : Nat} {negative : Bool}
  {body : List Char} {v w : Int64}

/-- Blanks in front of a numeral are cut off. -/
theorem trimStart_gap {gap numeral : List Char} (letters : List Char)
    (blanks : ∀ c ∈ gap, isBlank c = true) (number : Numeral sign numeral n) :
    trimStart (gap ++ (numeral ++ letters)) = numeral ++ letters := by
  obtain ⟨d, more, rfl, hlow, hhigh⟩ := number.starts
  have hd : isBlank d = false := isBlank_of_graphic (by omega)
  rw [trimStart, List.dropWhile_append_of_pos blanks, List.cons_append,
    List.dropWhile_cons_of_neg (by simp [hd])]

/-- Behind a minus sign the word that holds the numeral is negated. -/
theorem negated?_of_written (h : Written sign n true body) :
    negated? body = word? (sign.apply n) := by
  cases h with
  | @negated gap numeral letters blanks number suffix =>
    unfold negated?
    rw [if_pos (by rfl), List.tail_cons, trimStart_gap letters blanks number,
      withoutSuffix_append number suffix, magnitude?_eq_some_iff.2 ⟨sign, n, number, rfl⟩]
    rfl

/-- A body that is written as an integer is read as the word that holds its numeral, negated behind
a minus sign. -/
theorem integer?_of_written (h : Written sign n negative body)
    (hword : word? (sign.apply n) = some w) :
    integer? a body = if negative then (a.negate w).map some else .ok (some w) := by
  cases h with
  | @plain numeral letters number suffix =>
    have hhead : (numeral ++ letters).head? ≠ some '-' := by
      obtain ⟨d, more, rfl, hlow, _⟩ := number.starts
      rw [List.cons_append, List.head?_cons, Ne, Option.some_inj]
      rintro rfl
      exact absurd hlow (by decide)
    rw [integer?_of_plain hhead, withoutSuffix_append number suffix,
      magnitude?_eq_some_iff.2 ⟨sign, n, number, rfl⟩, Option.bind_some, hword]
    rfl
  | @negated gap numeral letters blanks number suffix =>
    exact integer?_of_minus ((negated?_of_written (.negated blanks number suffix)).trans hword)

/-- A text is what it is without its suffix letters, and these. -/
theorem exists_suffix (cs : List Char) :
    ∃ letters, cs = withoutSuffix cs ++ letters ∧ ∀ c ∈ letters, isSuffix c = true :=
  ⟨cs.rtakeWhile isSuffix, List.rdropWhile_append_rtakeWhile.symm,
    fun _ => List.mem_rtakeWhile_imp⟩

/-- The word that is negated is that of a numeral behind a minus sign. -/
theorem negated?_eq_some_iff :
    negated? body = some w ↔ ∃ sign n, Written sign n true body ∧ w.toInt = sign.apply n := by
  constructor
  · intro h
    unfold negated? at h
    split at h
    · next hhead =>
      obtain ⟨cs, rfl⟩ := List.head?_eq_some_iff.1 (beq_iff_eq.1 hhead)
      obtain ⟨k, hk, hword⟩ := Option.bind_eq_some_iff.1 h
      obtain ⟨sign, n, number, rfl⟩ := magnitude?_eq_some_iff.1 hk
      obtain ⟨letters, hletters, suffix⟩ := exists_suffix (trimStart cs)
      have hsplit : cs = cs.takeWhile isBlank ++ (withoutSuffix (trimStart cs) ++ letters) := by
        rw [← hletters]
        exact List.takeWhile_append_dropWhile.symm
      have blanks : ∀ c ∈ cs.takeWhile isBlank, isBlank c = true :=
        fun _ => List.mem_takeWhile_imp
      refine ⟨sign, n, ?_, word?_eq_some_iff.1 hword⟩
      rw [hsplit]
      exact .negated blanks number suffix
    · cases h
  · rintro ⟨sign, n, hwritten, hw⟩
    rw [negated?_of_written hwritten]
    exact word?_eq_some_iff.2 hw

/-- What is read as an integer is written as one, its word negated behind a minus sign. -/
theorem exists_written (h : integer? a body = .ok (some v)) :
    ∃ sign n negative w, Written sign n negative body ∧ word? (sign.apply n) = some w ∧
      (if negative then a.negate w = .ok v else w = v) := by
  by_cases hhead : body.head? = some '-'
  · obtain ⟨cs, rfl⟩ := List.head?_eq_some_iff.1 hhead
    cases hnegated : negated? ('-' :: cs) with
    | none =>
      rw [integer?_of_minus_none hnegated] at h
      cases h
    | some w =>
      rw [integer?_of_minus hnegated] at h
      obtain ⟨sign, n, hwritten, hw⟩ := negated?_eq_some_iff.1 hnegated
      exact ⟨sign, n, true, w, hwritten, word?_eq_some_iff.2 hw, negate_map_eq_ok.1 h⟩
  · rw [integer?_of_plain hhead] at h
    obtain ⟨k, hk, hword⟩ := Option.bind_eq_some_iff.1 (Except.ok.inj h)
    obtain ⟨sign, n, number, rfl⟩ := magnitude?_eq_some_iff.1 hk
    obtain ⟨letters, hletters, suffix⟩ := exists_suffix body
    refine ⟨sign, n, false, v, ?_, hword, rfl⟩
    rw [hletters]
    exact .plain number suffix

theorem negated_least_iff (h : negated? body = some w) :
    w = Int64.minValue ↔ Written .minus (2 ^ 63) true body := by
  have hleast : Int64.minValue.toInt = -2 ^ 63 := Int64.toInt_minValue
  constructor
  · rintro rfl
    obtain ⟨sign, n, hwritten, hn⟩ := negated?_eq_some_iff.1 h
    rw [hleast] at hn
    cases sign with
    | minus =>
      have hn : n = 2 ^ 63 := by
        simp only [Sign.apply] at hn
        omega
      exact hn ▸ hwritten
    | none | plus =>
      simp only [Sign.apply] at hn
      omega
  · intro hwritten
    have hword := negated?_of_written hwritten
    rw [h] at hword
    apply Int64.toInt_inj.1
    rw [hleast, word?_eq_some_iff.1 hword.symm]
    rfl

/-- Reading an integer overflows if the word behind a minus sign is the least one. -/
theorem integer?_eq_error_iff :
    integer? a body = .error o ↔ a = .checked ∧ Written .minus (2 ^ 63) true body := by
  constructor
  · intro h
    by_cases hhead : body.head? = some '-'
    · obtain ⟨cs, rfl⟩ := List.head?_eq_some_iff.1 hhead
      cases hnegated : negated? ('-' :: cs) with
      | none =>
        rw [integer?_of_minus_none hnegated] at h
        cases h
      | some w =>
        rw [integer?_of_minus hnegated, negate_map_eq_error, Arithmetic.negate_eq_error_iff] at h
        exact ⟨h.1, (negated_least_iff hnegated).1 h.2⟩
    · rw [integer?_of_plain hhead] at h
      cases h
  · rintro ⟨rfl, hwritten⟩
    have hword : word? (Sign.minus.apply (2 ^ 63)) = some Int64.minValue := by decide
    rw [integer?_of_written hwritten hword]
    exact negate_map_eq_error.2 (Arithmetic.negate_eq_error_iff.2 ⟨rfl, rfl⟩)

/-- Without a sign behind the mark of the base there is no minus sign but the first character. -/
theorem Written.not_mem_tail (h : Written .none n negative body) : '-' ∉ body.tail := by
  have hdigit : digitValue? '-' = none := by decide
  have hnumeral : ∀ {cs : List Char}, Numeral .none cs n → '-' ∉ cs := by
    intro cs hcs hmem
    cases hcs with
    | hexadecimal mark digits =>
      have := digits.not_mem hdigit
      rcases mark with rfl | rfl <;> simp [Sign.chars, this] at hmem
    | octal digits =>
      have := digits.not_mem hdigit
      simp [Sign.chars, this] at hmem
    | decimal _ digits => exact digits.not_mem hdigit hmem
  have hletters : ∀ {letters : List Char}, (∀ c ∈ letters, isSuffix c = true) → '-' ∉ letters :=
    fun suffix hmem => absurd (suffix _ hmem) (by decide)
  cases h with
  | plain number suffix =>
    intro hmem
    rcases List.mem_append.1 (List.mem_of_mem_tail hmem) with hmem | hmem
    · exact hnumeral number hmem
    · exact hletters suffix hmem
  | negated blanks number suffix =>
    intro hmem
    rcases List.mem_append.1 hmem with hmem | hmem
    · exact absurd (blanks _ hmem) (by decide)
    · rcases List.mem_append.1 hmem with hmem | hmem
      · exact hnumeral number hmem
      · exact hletters suffix hmem

end Body

section Word

variable {n : Nat} {negative : Bool} {v w : Int64}

/-- A word other than the least has the opposite number as its negative. -/
theorem toInt_neg_of_ne (h : w ≠ Int64.minValue) : (-w).toInt = -w.toInt := by
  have hleast : w.toInt ≠ -2 ^ 63 := fun he =>
    h (Int64.toInt_inj.1 (he.trans Int64.toInt_minValue.symm))
  have hle := w.le_toInt
  have hlt := w.toInt_lt
  rw [Int64.toInt_neg]
  exact Int.bmod_eq_of_le (by omega) (by omega)

/-- The word that holds a natural number is not the least one. -/
theorem ne_minValue_of_natural (h : word? (n : Int) = some w) : w ≠ Int64.minValue := by
  have hleast : Int64.minValue.toInt = -2 ^ 63 := Int64.toInt_minValue
  have hw : w.toInt = n := word?_eq_some_iff.1 h
  rintro rfl
  omega

/-- A number and its negative are words, unless the negative is the least word. -/
theorem exists_word_iff :
    (∃ w, word? (n : Int) = some w ∧ (if negative then -w else w) = v) ↔
      v.toInt = (if negative then -(n : Int) else n) ∧ v ≠ Int64.minValue := by
  have hleast : Int64.minValue.toInt = -2 ^ 63 := Int64.toInt_minValue
  constructor
  · rintro ⟨w, hword, rfl⟩
    have hw : w.toInt = n := word?_eq_some_iff.1 hword
    have hne := ne_minValue_of_natural hword
    have hlt := w.toInt_lt
    have hneg := toInt_neg_of_ne hne
    cases negative with
    | false => exact ⟨hw, hne⟩
    | true =>
      refine ⟨by simp only [if_true]; omega, fun heq => ?_⟩
      simp only [if_true] at heq
      rw [heq] at hneg
      omega
  · rintro ⟨hv, hne⟩
    have hneg := toInt_neg_of_ne hne
    cases negative with
    | false => exact ⟨v, word?_eq_some_iff.2 hv, rfl⟩
    | true =>
      refine ⟨-v, word?_eq_some_iff.2 ?_, Int64.neg_neg⟩
      simp only [if_true] at hv
      omega

end Word

/-- A body in no parentheses and no quotes is a constant if it is an integer. -/
theorem constant?_of_bare {a : Arithmetic} {body : List Char}
    (hparen : between? '(' ')' body = none) (hquote : between? '"' '"' body = none) :
    constant? a body = (integer? a body).map fun v => v.map .int := by
  rw [constant?]
  split
  · next inner h =>
    rw [hparen] at h
    cases h
  · rw [hquote]

/-- A body that is no constant, and no name of one, leaves the scan as it was. -/
theorem define_of_none {a : Arithmetic} {body : List Char} {scan : HeaderScan}
    (hconstant : constant? a body = .ok none)
    (hname : Fields.get? scan.constants (String.ofList body) = none) (name : String) :
    scan.define a name body = .ok scan := by
  rw [HeaderScan.define, hconstant]
  show Except.ok (scan.defineAs name body none) = _
  rw [HeaderScan.defineAs, hname]
  rfl

/-- A body is read as an integer if it is written as one without a sign behind the mark of its base,
and then as its number: all words but the least one are read. Besides, a body with such a sign is
read, with the sign as part of the word behind the mark. Checked arithmetic overflows at the bodies
in which that word is the least one and stands behind a minus sign. A definition by any other body
that is in no parentheses or quotes and no name of a constant leaves all constants as they were. -/
theorem integer_read_iff (a : Arithmetic) (body : List Char) :
    (∀ v, integer? a body = .ok (some v) ↔
      (∃ n negative, Written .none n negative body ∧
        v.toInt = (if negative then -(n : Int) else n) ∧ v ≠ Int64.minValue) ∨
      ∃ sign n negative w, sign ≠ .none ∧ Written sign n negative body ∧
        w.toInt = sign.apply n ∧ if negative then a.negate w = .ok v else w = v) ∧
    (∀ o, integer? a body = .error o ↔ a = .checked ∧ Written .minus (2 ^ 63) true body) ∧
    (integer? a body = .ok none → between? '(' ')' body = none → between? '"' '"' body = none →
      ∀ scan : HeaderScan, Fields.get? scan.constants (String.ofList body) = none →
        ∀ name, scan.define a name body = .ok scan) := by
  refine ⟨fun v => ⟨fun h => ?_, ?_⟩, fun o => integer?_eq_error_iff,
    fun hint hparen hquote scan hname name => ?_⟩
  · obtain ⟨sign, n, negative, w, hwritten, hw, hv⟩ := exists_written h
    by_cases hsign : sign = .none
    · subst hsign
      refine .inl ⟨n, negative, hwritten, exists_word_iff.1 ⟨w, hw, ?_⟩⟩
      cases negative with
      | false => exact hv
      | true => exact (Arithmetic.negate_eq_ok_iff.1 hv).2
    · exact .inr ⟨sign, n, negative, w, hsign, hwritten, word?_eq_some_iff.1 hw, hv⟩
  · rintro (⟨n, negative, hwritten, hvalue⟩ | ⟨sign, n, negative, w, _, hwritten, hw, hv⟩)
    · obtain ⟨w, hw, hv⟩ := exists_word_iff.2 hvalue
      rw [integer?_of_written hwritten hw]
      cases negative with
      | false => exact congrArg (fun w => Except.ok (some w)) hv
      | true =>
        rw [if_pos rfl, Arithmetic.negate_of_ne (ne_minValue_of_natural hw)]
        exact congrArg (fun w => Except.ok (some w)) hv
    · rw [integer?_of_written hwritten (word?_eq_some_iff.2 hw)]
      cases negative with
      | false => exact congrArg (fun w => Except.ok (some w)) hv
      | true => exact negate_map_eq_ok.2 hv
  · refine define_of_none ?_ hname name
    rw [constant?_of_bare hparen hquote, hint]
    rfl

/-- The number behind a minus sign and blanks is read with its suffix cut off, and a body that is no
constant is passed over. -/
theorem spaced_integer_read :
    integer? .checked "- 0x1FuL".toList = .ok (some (-31)) ∧
      integer? .checked "09".toList = .ok none ∧
      ∀ name, HeaderScan.define .checked ⟨[("A", .int 1)], []⟩ name "09".toList =
        .ok ⟨[("A", .int 1)], []⟩ := by
  have hdigits : Digits 16 ['1', 'F'] 31 := natural?_eq_some_iff.1 (by decide +kernel)
  have hwritten : Written .none 31 true "- 0x1FuL".toList :=
    @Written.negated .none 31 [' '] _ ['u', 'L'] (List.all_eq_true.1 rfl)
      (.hexadecimal (.inl rfl) hdigits) (List.all_eq_true.1 rfl)
  have hnone : integer? .checked "09".toList = .ok none := by decide +kernel
  obtain ⟨hread, _, hpassed⟩ := integer_read_iff .checked "09".toList
  exact ⟨((integer_read_iff _ _).1 (-31)).2 (.inl ⟨31, true, hwritten, by decide, by decide⟩),
    hnone, hpassed hnone (by decide) (by decide) _ (by decide)⟩

/-- A sign behind the mark of the base is read, although no integer is written so, and the least
word is not read, although an integer that it holds is. -/
theorem signed_digits_read :
    integer? .checked "0x-5".toList = .ok (some (-5)) ∧
      (¬ ∃ n negative, Written .none n negative "0x-5".toList) ∧
      scanText .checked .bare [] "#define A 0x-5\n" none = .ok ⟨[("A", .int (-5))], []⟩ ∧
      Written .none (2 ^ 63) true "-9223372036854775808".toList ∧
      integer? .checked "-9223372036854775808".toList = .ok none := by
  have hdigits : Digits 10 "9223372036854775808".toList (2 ^ 63) :=
    natural?_eq_some_iff.1 (by decide +kernel)
  refine ⟨by decide +kernel, ?_, by cbv, ?_, by decide +kernel⟩
  · rintro ⟨n, negative, hwritten⟩
    exact hwritten.not_mem_tail (by decide)
  · exact @Written.negated .none (2 ^ 63) [] _ [] (List.all_eq_true.1 rfl)
      (.decimal rfl hdigits (.inr (by decide))) (List.all_eq_true.1 rfl)

end ScriptBuild.Header
