import ScriptBuild.Script.Token

/-!
# Spellings of tokens

Words are spelled in one way, integers also with zeros in front, and strings with either quote and
with escapes. Main statements: `lexeme_of_spells` reads a token off any of its spellings, as long as
the token ends there, `legible_of_tokensFrom` says which tokens a text can have, and `spells_spell`
that all such tokens have a usual spelling.
-/

namespace ScriptBuild.Script

open Text

section Characters

variable {c : Char}

theorem isDigit_iff : c.isDigit = true ↔ 48 ≤ c.toNat ∧ c.toNat ≤ 57 := by
  rw [Char.isDigit, Bool.and_eq_true, decide_eq_true_eq, decide_eq_true_eq]
  exact Iff.rfl

theorem isWordStart_iff : isWordStart c = true ↔
    (65 ≤ c.toNat ∧ c.toNat ≤ 90) ∨ (97 ≤ c.toNat ∧ c.toNat ≤ 122) ∨ c.toNat = 95 := by
  have heq : c = '_' ↔ c.toNat = 95 := Char.toNat_inj.symm
  have hletter : isWordStart c = (decide (c.val ≥ 'A'.val ∧ c.val ≤ 'Z'.val) ||
      (decide (c.val ≥ 'a'.val) && decide (c.val ≤ 'z'.val)) || c == '_') := rfl
  rw [hletter]
  simp only [Bool.or_eq_true, Bool.and_eq_true, decide_eq_true_eq, beq_iff_eq, heq, or_assoc]
  exact Iff.rfl

theorem isWordChar_iff : isWordChar c = true ↔ isWordStart c = true ∨ c.isDigit = true := by
  simp only [isWordChar, isWordStart, Char.isAlphanum, Bool.or_eq_true]
  exact or_right_comm

theorem isQuote_iff : isQuote c = true ↔ c.toNat = 34 ∨ c.toNat = 39 := by
  simp only [isQuote, Bool.or_eq_true, beq_iff_eq, ← Char.toNat_inj]
  exact Iff.rfl

theorem eq_dash_iff : c = '-' ↔ c.toNat = 45 :=
  Char.toNat_inj.symm

end Characters

/-- The text is a letter or an underscore, followed by letters, digits and underscores. -/
def isIdentifier : List Char → Bool
  | [] => false
  | c :: cs => isWordStart c && cs.all isWordChar

/-- The text between two quotes stands for a text. -/
inductive Quotes (quote : Char) : List Char → List Char → Prop where
  | nil : Quotes quote [] []
  | plain {c : Char} {text body : List Char} (feed : c ≠ '\n') (inside : c ≠ quote) (plain : c ≠ '\\')
      (rest : Quotes quote text body) : Quotes quote (c :: text) (c :: body)
  | escaped {c e : Char} {text body : List Char} (escape : unescape? e = some c)
      (rest : Quotes quote text body) : Quotes quote (c :: text) ('\\' :: e :: body)

/-- A token may be written as a text. -/
inductive Spells : Token → List Char → Prop where
  | word {cs : List Char} (identifier : isIdentifier cs = true) : Spells (.word (String.ofList cs)) cs
  | int {ds : List Char} {n : Nat} {w : Int64} (digits : ∀ d ∈ ds, d.isDigit = true)
      (value : natural? 10 ds = some n) (fits : word? n = some w) : Spells (.int w) ds
  | negative {ds : List Char} {n : Nat} {w : Int64} (digits : ∀ d ∈ ds, d.isDigit = true)
      (value : natural? 10 ds = some n) (fits : word? n = some w) : Spells (.int (-w)) ('-' :: ds)
  | str {quote : Char} {text body : List Char} (delimiter : isQuote quote = true)
      (quotes : Quotes quote text body) :
      Spells (.str (String.ofList text)) (quote :: (body ++ [quote]))
  | mark {m : Mark} {c : Char} (char : Mark.ofChar? c = some m) : Spells (.mark m) [c]

/-- The token ends where the text begins: it does not go on there. -/
def Token.Ends : Token → List Char → Prop
  | .word _, more => ∀ d ∈ more.head?, isWordChar d = false
  | .int _, more => ∀ d ∈ more.head?, d.isDigit = false
  | .str _, _ | .mark _, _ => True

/-- No word or number goes on with the text. -/
def Breaks (more : List Char) : Prop :=
  ∀ d ∈ more.head?, isWordChar d = false

theorem Breaks.ends {more : List Char} (h : Breaks more) (t : Token) : t.Ends more := by
  cases t with
  | word => exact h
  | int =>
    intro d hd
    rw [← Bool.not_eq_true]
    intro hdigit
    have hword := h d hd
    rw [isWordChar_iff.2 (.inr hdigit)] at hword
    cases hword
  | str | mark => trivial

theorem takeWhile_append_of_head {f : Char → Bool} {as bs : List Char} (has : ∀ a ∈ as, f a = true)
    (hbs : ∀ b ∈ bs.head?, f b = false) :
    (as ++ bs).takeWhile f = as ∧ (as ++ bs).dropWhile f = bs := by
  rw [List.takeWhile_append_of_pos has, List.dropWhile_append_of_pos has]
  cases bs with
  | nil => exact ⟨List.append_nil _, rfl⟩
  | cons b bs =>
    have hb : ¬ f b = true := by rw [hbs b rfl]; exact Bool.false_ne_true
    rw [List.takeWhile_cons_of_neg hb, List.dropWhile_cons_of_neg hb]
    exact ⟨List.append_nil _, rfl⟩

theorem integer_of_digits {ds more : List Char} {n : Nat} {w : Int64} (negative : Bool) (p : Position)
    (digits : ∀ d ∈ ds, d.isDigit = true) (value : natural? 10 ds = some n)
    (fits : word? n = some w) (ends : ∀ d ∈ more.head?, d.isDigit = false) :
    integer negative p (ds ++ more) =
      .ok (.int (if negative then -w else w), ⟨p.afterAll ds, more⟩) := by
  obtain ⟨htake, hdrop⟩ := takeWhile_append_of_head digits ends
  simp only [integer, htake, hdrop, value, Option.bind_some, fits]

theorem quoted_plain {quote c : Char} (feed : c ≠ '\n') (inside : c ≠ quote) (plain : c ≠ '\\')
    (p : Position) (cs : List Char) :
    quoted quote p (c :: cs) = (quoted quote (p.after c) cs).map fun r => (c :: r.1, r.2) := by
  cases cs <;> simp [quoted, feed, inside, plain]

theorem quoted_close {quote : Char} (feed : quote ≠ '\n') (p : Position) (cs : List Char) :
    quoted quote p (quote :: cs) = .ok ([], ⟨p.after quote, cs⟩) := by
  unfold quoted
  dsimp only
  rw [if_neg feed, if_pos rfl]

/-- The inside of a string is read as the text that it stands for, whatever follows. -/
theorem quoted_append {quote : Char} {text body : List Char} (h : Quotes quote text body)
    (delimiter : isQuote quote = true) (p : Position) (more : List Char) :
    quoted quote p (body ++ more) =
      (quoted quote (p.afterAll body) more).map fun r => (text ++ r.1, r.2) := by
  have hslash : '\\' ≠ quote := by rintro rfl; exact absurd delimiter (by decide)
  induction h generalizing p with
  | nil =>
    show quoted quote p more = _
    cases hread : quoted quote p more <;> simp [Position.afterAll, hread, Except.map]
  | @plain c text body feed inside plain _ ih =>
    rw [List.cons_append, quoted_plain feed inside plain, ih]
    show _ = (quoted quote ((p.after c).afterAll body) more).map _
    cases quoted quote ((p.after c).afterAll body) more <;> rfl
  | @escaped c e text body escape _ ih =>
    simp only [List.cons_append, quoted, hslash, if_false, if_true, escape, ih]
    show _ = (quoted quote (((p.after '\\').after e).afterAll body) more).map _
    cases quoted quote (((p.after '\\').after e).afterAll body) more <;> rfl

theorem quoted_of_quotes {quote : Char} {text body : List Char} (h : Quotes quote text body)
    (delimiter : isQuote quote = true) (p : Position) (more : List Char) :
    quoted quote p (body ++ quote :: more) =
      .ok (text, ⟨p.afterAll (body ++ [quote]), more⟩) := by
  have hfeed : quote ≠ '\n' := by rintro rfl; exact absurd delimiter (by decide)
  rw [quoted_append h delimiter, quoted_close hfeed, Position.afterAll_append]
  simp [Except.map, Position.afterAll]

/-- A token is read off any of its spellings, if it ends there. -/
theorem lexeme_of_spells {t : Token} {c : Char} {cs more : List Char} (h : Spells t (c :: cs))
    (ends : t.Ends more) (p : Position) :
    lexeme p c (cs ++ more) = .ok (t, ⟨p.afterAll (c :: cs), more⟩) := by
  unfold lexeme
  cases h with
  | word identifier =>
    obtain ⟨hstart, hchars⟩ := Bool.and_eq_true_iff.1 identifier
    have hcode := isWordStart_iff.1 hstart
    have hdash : c ≠ '-' := by rw [Ne, eq_dash_iff]; omega
    have hdigit : ¬ c.isDigit = true := by rw [isDigit_iff]; omega
    have hquote : ¬ isQuote c = true := by rw [isQuote_iff]; omega
    obtain ⟨htake, hdrop⟩ := takeWhile_append_of_head (List.all_eq_true.1 hchars) ends
    rw [if_neg hdash, if_neg hdigit, if_neg hquote, if_pos hstart, htake, hdrop]
  | int digits value fits =>
    have hdigit := digits c List.mem_cons_self
    have hdash : c ≠ '-' := by rw [Ne, eq_dash_iff]; have := isDigit_iff.1 hdigit; omega
    rw [if_neg hdash, if_pos hdigit]
    exact integer_of_digits false p digits value fits ends
  | @negative _ n w digits value fits =>
    have hhead : (((cs ++ more).head?.map Char.isDigit).getD false) = true := by
      cases cs with
      | nil => cases value
      | cons d ds => exact digits d List.mem_cons_self
    rw [if_pos rfl, if_pos hhead]
    exact integer_of_digits true (p.after '-') digits value fits ends
  | @str _ text body delimiter quotes =>
    have hcode := isQuote_iff.1 delimiter
    have hdash : c ≠ '-' := by rw [Ne, eq_dash_iff]; omega
    have hdigit : ¬ c.isDigit = true := by rw [isDigit_iff]; omega
    rw [if_neg hdash, if_neg hdigit, if_pos delimiter, List.append_assoc, List.singleton_append,
      quoted_of_quotes quotes delimiter]
    rfl
  | mark char =>
    unfold Mark.ofChar? at char
    split at char <;> cases char <;> rfl

/-- A text can have the token: words are identifiers, and integers are others than the least one,
which is spelled with digits that no integer fits. -/
def Token.Legible : Token → Prop
  | .word w => isIdentifier w.toList = true
  | .int n => n ≠ Int64.minValue
  | .str _ | .mark _ => True

instance : DecidablePred Token.Legible
  | .word w => inferInstanceAs (Decidable (isIdentifier w.toList = true))
  | .int n => inferInstanceAs (Decidable (n ≠ Int64.minValue))
  | .str _ | .mark _ => .isTrue trivial

/-- Neither an integer that digits spell nor its negative is the least one. -/
theorem ne_minValue_of_fits {n : Nat} {w : Int64} (fits : word? n = some w) :
    w ≠ Int64.minValue ∧ -w ≠ Int64.minValue := by
  have hw : w.toInt = n := word?_eq_some_iff.1 fits
  have hlt := w.toInt_lt
  rw [hw] at hlt
  have hneg : (-w).toInt = -(n : Int) := by
    rw [Int64.toInt_neg, hw]
    exact Int.bmod_eq_of_le (by omega) (by omega)
  have hleast : Int64.minValue.toInt = -2 ^ 63 := Int64.toInt_minValue
  constructor
  · rintro rfl
    omega
  · intro h
    rw [h] at hneg
    omega

theorem legible_of_integer {negative : Bool} {p : Position} {cs : List Char} {r : Token × Rest}
    (h : integer negative p cs = .ok r) : r.1.Legible := by
  simp only [integer] at h
  split at h
  · next w hw =>
    obtain ⟨n, _, fits⟩ := Option.bind_eq_some_iff.1 hw
    obtain ⟨hpos, hneg⟩ := ne_minValue_of_fits fits
    cases h
    show (if negative then -w else w) ≠ Int64.minValue
    split
    · exact hneg
    · exact hpos
  · cases h

theorem legible_of_lexeme {p : Position} {c : Char} {cs : List Char} {r : Token × Rest}
    (h : lexeme p c cs = .ok r) : r.1.Legible := by
  unfold lexeme at h
  split at h
  · split at h
    · exact legible_of_integer h
    · cases h
  · split at h
    · exact legible_of_integer h
    · split at h
      · obtain ⟨r', _, rfl⟩ := map_eq_ok_iff.1 h
        trivial
      · split at h
        · next hstart =>
          cases h
          show isIdentifier (String.ofList _).toList = true
          rw [String.toList_ofList, isIdentifier, hstart, Bool.true_and]
          exact List.all_takeWhile
        · split at h <;> cases h
          trivial

theorem tokensFrom_of_end {p q : Position} {cs : List Char}
    (h : skipLayout false p cs = ⟨q, []⟩) : tokensFrom p cs = .ok ⟨[], q⟩ := by
  rw [tokensFrom]
  split
  · next h' =>
    rw [h] at h'
    cases h'
    rfl
  · next h' =>
    rw [h] at h'
    cases h'

/-- Behind the layout one token is read, and then the rest. -/
theorem tokensFrom_of_skip {p q : Position} {cs text : List Char} {c : Char}
    (h : skipLayout false p cs = ⟨q, c :: text⟩) :
    tokensFrom p cs = (lexeme q c text).bind fun r =>
      (tokensFrom r.2.position r.2.text).map fun more => ⟨⟨r.1, q⟩ :: more.list, more.finish⟩ := by
  rw [tokensFrom]
  split
  · next h' =>
    rw [h] at h'
    cases h'
  · next h' =>
    rw [h] at h'
    cases h'
    dsimp only
    split <;>
    · next hr =>
      rw [hr]
      rfl

theorem legible_of_tokensFrom {p : Position} {cs : List Char} {tokens : Tokens}
    (h : tokensFrom p cs = .ok tokens) : ∀ t ∈ tokens.list, t.token.Legible := by
  fun_induction tokensFrom p cs generalizing tokens with
  | case1 =>
    cases h
    exact fun t ht => absurd ht List.not_mem_nil
  | case2 => cases h
  | case3 p cs q c text hskip token rest hlexeme _ ih =>
    obtain ⟨more, hmore, rfl⟩ := map_eq_ok_iff.1 h
    intro t ht
    rcases List.mem_cons.1 ht with rfl | ht
    · exact legible_of_lexeme hlexeme
    · exact ih hmore t ht

/-- The character that a mark is. -/
def Mark.char : Mark → Char
  | equals => '='
  | dot => '.'
  | comma => ','
  | semicolon => ';'
  | openParen => '('
  | closeParen => ')'
  | openBrace => '\x7b'
  | closeBrace => '\x7d'

/-- A character of a string between double quotes. -/
def escapeQuoted (c : Char) : List Char :=
  if c = '\n' then ['\\', 'n']
  else if c = '\\' then ['\\', '\\']
  else if c = '"' then ['\\', '"']
  else [c]

/-- The usual spelling of a token: decimal digits, double quotes and as few escapes as possible. -/
def Token.spell : Token → List Char
  | .word w => w.toList
  | .int n => (decimal n).toList
  | .str s => '"' :: (s.toList.flatMap escapeQuoted ++ ['"'])
  | .mark m => [m.char]

theorem quotes_escapeQuoted (text : List Char) : Quotes '"' text (text.flatMap escapeQuoted) := by
  induction text with
  | nil => exact .nil
  | cons c text ih =>
    rw [List.flatMap_cons, escapeQuoted]
    by_cases hfeed : c = '\n'
    · rw [hfeed]
      exact .escaped rfl ih
    by_cases hslash : c = '\\'
    · rw [hslash]
      exact .escaped rfl ih
    by_cases hquote : c = '"'
    · rw [hquote]
      exact .escaped rfl ih
    rw [if_neg hfeed, if_neg hslash, if_neg hquote]
    exact .plain hfeed hquote hslash ih

theorem spells_decimal {n : Int64} (h : n ≠ Int64.minValue) :
    Spells (.int n) (decimal n).toList := by
  have digits : ∀ k : Nat, ∀ d ∈ k.repr.toList, d.isDigit = true := by
    intro k d hd
    rw [Nat.toList_repr] at hd
    exact Nat.isDigit_of_mem_toDigits (by omega) (by omega) hd
  rw [decimal]
  rcases hn : n.toInt with k | k
  · exact .int (digits k) (natural?_decimal k) (word?_eq_some_iff.2 hn)
  · have hfits : word? (k.succ : Nat) = some (-n) := by
      have hleast : n.toInt ≠ -2 ^ 63 := fun he =>
        h (Int64.toInt_inj.1 (he.trans Int64.toInt_minValue.symm))
      have hle := n.le_toInt
      rw [hn] at hleast hle
      refine word?_eq_some_iff.2 ?_
      rw [Int64.toInt_neg, hn]
      exact Int.bmod_eq_of_le (by omega) (by omega)
    have hspells := Spells.negative (digits k.succ) (natural?_decimal k.succ) hfits
    rw [Int64.neg_neg] at hspells
    rw [show (Int.negSucc k).repr = "-" ++ k.succ.repr from rfl, String.toList_append]
    exact hspells

/-- A token that a text can have may be written in its usual spelling. -/
theorem spells_spell {t : Token} (h : t.Legible) : Spells t t.spell := by
  cases t with
  | word w =>
    have hspells := Spells.word h
    rwa [String.ofList_toList] at hspells
  | int n => exact spells_decimal h
  | str s =>
    have hspells := Spells.str rfl (quotes_escapeQuoted s.toList)
    rwa [String.ofList_toList] at hspells
  | mark m => cases m <;> exact .mark rfl

/-- The text begins with neither a blank nor a comment. -/
structure Starts (c : Char) (cs : List Char) : Prop where
  seen : isBlank c = false
  outside : c = '-' → cs.head? ≠ some '-'

/-- Any seen character but a dash starts a token. -/
theorem starts_of_graphic {c : Char} (graphic : 33 ≤ c.toNat ∧ c.toNat ≤ 126)
    (dash : c.toNat ≠ 45) (cs : List Char) : Starts c cs :=
  ⟨isBlank_of_graphic graphic, fun h => absurd (eq_dash_iff.1 h) dash⟩

theorem exists_cons_of_natural? {ds : List Char} {n : Nat} (h : natural? 10 ds = some n) :
    ∃ d rest, ds = d :: rest := by
  cases ds with
  | nil => cases h
  | cons d rest => exact ⟨d, rest, rfl⟩

theorem starts_of_digits {ds : List Char} {n : Nat} (digits : ∀ d ∈ ds, d.isDigit = true)
    (value : natural? 10 ds = some n) :
    ∃ c rest, ds = c :: rest ∧ ∀ more, Starts c (rest ++ more) := by
  obtain ⟨d, rest, rfl⟩ := exists_cons_of_natural? value
  have hcode := isDigit_iff.1 (digits d List.mem_cons_self)
  exact ⟨d, rest, rfl, fun more => starts_of_graphic (by omega) (by omega) _⟩

/-- A dash in front of digits begins no comment. -/
theorem starts_of_negative {ds : List Char} {n : Nat} (digits : ∀ d ∈ ds, d.isDigit = true)
    (value : natural? 10 ds = some n) (more : List Char) : Starts '-' (ds ++ more) := by
  obtain ⟨d, rest, rfl⟩ := exists_cons_of_natural? value
  have hcode := isDigit_iff.1 (digits d List.mem_cons_self)
  refine ⟨by decide, fun _ hhead => ?_⟩
  have hdash := eq_dash_iff.1 (Option.some.inj hhead)
  omega

/-- A spelling is not taken for layout. -/
theorem Spells.starts {t : Token} {cs : List Char} (h : Spells t cs) :
    ∃ c rest, cs = c :: rest ∧ ∀ more, Starts c (rest ++ more) := by
  cases h with
  | @word cs identifier =>
    cases cs with
    | nil => cases identifier
    | cons c cs =>
      have hcode := isWordStart_iff.1 (Bool.and_eq_true_iff.1 identifier).1
      exact ⟨c, cs, rfl, fun more => starts_of_graphic (by omega) (by omega) _⟩
  | int digits value => exact starts_of_digits digits value
  | negative digits value => exact ⟨'-', _, rfl, starts_of_negative digits value⟩
  | str delimiter =>
    have hcode := isQuote_iff.1 delimiter
    exact ⟨_, _, rfl, fun more => starts_of_graphic (by omega) (by omega) _⟩
  | mark char =>
    unfold Mark.ofChar? at char
    split at char <;> cases char <;>
      exact ⟨_, _, rfl, fun more => starts_of_graphic (by decide) (by decide) _⟩

end ScriptBuild.Script
