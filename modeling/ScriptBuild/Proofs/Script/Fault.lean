import ScriptBuild.Proofs.Script.Writing

/-!
# Faults in a text

A text that is not read as tokens has a faulty part: behind written tokens and layout stands
something that begins like a token and is none. Main statement: `ofText_eq_error_iff`, which says
where the faulty part is and at which position its fault is reported. That is behind the characters
that were read of it, on its own line, unless it is a string that ends with the line.
-/

namespace ScriptBuild.Script

open Text

/-- The inside of a string stops without a closing quote, behind these characters and in front of
the rest. -/
inductive Stops : SyntaxFault → List Char → List Char → Prop where
  | line {rest : List Char} : Stops .unfinishedString ['\n'] rest
  | text : Stops .unfinishedString [] []
  | escape {e : Char} {rest : List Char} (unknown : unescape? e = none) :
      Stops .escape ['\\', e] rest
  | backslash : Stops .escape ['\\'] []

/-- These characters begin like a token and are none, in front of the rest. -/
inductive Faulty : SyntaxFault → List Char → List Char → Prop where
  | loneDash {rest : List Char} (number : ∀ d ∈ rest.head?, d.isDigit = false)
      (comment : rest.head? ≠ some '-') : Faulty .loneDash ['-'] rest
  | character {c : Char} {rest : List Char} (seen : isBlank c = false) (dash : c ≠ '-')
      (digit : c.isDigit = false) (quote : isQuote c = false) (word : isWordStart c = false)
      (mark : Mark.ofChar? c = none) : Faulty (.character c) [c] rest
  | int {ds rest : List Char} {n : Nat} (digits : ∀ d ∈ ds, d.isDigit = true)
      (value : natural? 10 ds = some n) (large : Int64.maxValue.toInt < n)
      (ends : ∀ d ∈ rest.head?, d.isDigit = false) :
      Faulty (.outOfRange (String.ofList ds)) ds rest
  | negative {ds rest : List Char} {n : Nat} (digits : ∀ d ∈ ds, d.isDigit = true)
      (value : natural? 10 ds = some n) (large : Int64.maxValue.toInt < n)
      (ends : ∀ d ∈ rest.head?, d.isDigit = false) :
      Faulty (.outOfRange (String.ofList ds)) ('-' :: ds) rest
  | str {quote : Char} {text body read rest : List Char} {fault : SyntaxFault}
      (delimiter : isQuote quote = true) (quotes : Quotes quote text body)
      (stops : Stops fault read rest) : Faulty fault (quote :: (body ++ read)) rest

section Forward

variable {fault : SyntaxFault} {read rest : List Char}

theorem quoted_of_stops (h : Stops fault read rest) {quote : Char} (delimiter : isQuote quote = true)
    (p : Position) : quoted quote p (read ++ rest) = .error ⟨fault, p.afterAll read⟩ := by
  have hslash : '\\' ≠ quote := by rintro rfl; exact absurd delimiter (by decide)
  cases h with
  | @line rest =>
    cases rest <;> simp [quoted, Position.afterAll]
  | text => rfl
  | escape unknown => simp [quoted, hslash, unknown, Position.afterAll]
  | backslash => simp [quoted, hslash, Position.afterAll]

theorem word?_eq_none_iff {n : Nat} : word? (n : Int) = none ↔ Int64.maxValue.toInt < n := by
  have hleast : Int64.minValue.toInt ≤ 0 := by decide
  rw [word?, dite_eq_right_iff]
  simp only [reduceCtorEq, imp_false, not_and]
  omega

theorem integer_of_large {ds : List Char} {n : Nat} (digits : ∀ d ∈ ds, d.isDigit = true)
    (value : natural? 10 ds = some n) (large : Int64.maxValue.toInt < n)
    (ends : ∀ d ∈ rest.head?, d.isDigit = false) (negative : Bool) (p : Position) :
    integer negative p (ds ++ rest) =
      .error ⟨.outOfRange (String.ofList ds), p.afterAll ds⟩ := by
  obtain ⟨htake, _⟩ := takeWhile_append_of_head digits ends
  simp only [integer, htake, value, Option.bind_some, word?_eq_none_iff.2 large]

/-- No token is read off a faulty part, and its fault is noticed behind it. -/
theorem lexeme_of_faulty {c : Char} {cs : List Char} (h : Faulty fault (c :: cs) rest)
    (p : Position) : lexeme p c (cs ++ rest) = .error ⟨fault, p.afterAll (c :: cs)⟩ := by
  unfold lexeme
  cases h with
  | loneDash number =>
    have hhead : (rest.head?.map Char.isDigit).getD false = false := by
      cases rest with
      | nil => rfl
      | cons d rest => exact number d rfl
    rw [if_pos rfl, List.nil_append, hhead]
    rfl
  | character _ dash digit quote word mark => simp [dash, digit, quote, word, mark, Position.afterAll]
  | int digits value large ends =>
    have hdigit := digits c List.mem_cons_self
    have hdash : c ≠ '-' := by rw [Ne, eq_dash_iff]; have := isDigit_iff.1 hdigit; omega
    rw [if_neg hdash, if_pos hdigit]
    exact integer_of_large digits value large ends false p
  | negative digits value large ends =>
    obtain ⟨d, ds, rfl⟩ := exists_cons_of_natural? value
    have hhead : ((((d :: ds) ++ rest).head?.map Char.isDigit).getD false) = true :=
      digits d List.mem_cons_self
    rw [if_pos rfl, if_pos hhead]
    exact integer_of_large digits value large ends true (p.after '-')
  | @str _ text body read _ _ delimiter quotes stops =>
    have hcode := isQuote_iff.1 delimiter
    have hdash : c ≠ '-' := by rw [Ne, eq_dash_iff]; omega
    have hdigit : ¬ c.isDigit = true := by rw [isDigit_iff]; omega
    rw [if_neg hdash, if_neg hdigit, if_pos delimiter, List.append_assoc,
      quoted_append quotes delimiter, quoted_of_stops stops delimiter, ← Position.afterAll_append]
    rfl

/-- A faulty part is not taken for layout. -/
theorem Faulty.starts (h : Faulty fault read rest) : ∃ c cs, read = c :: cs ∧ Starts c (cs ++ rest) := by
  cases h with
  | loneDash _ comment => exact ⟨_, _, rfl, by decide, fun _ => comment⟩
  | character seen dash => exact ⟨_, _, rfl, seen, fun h => absurd h dash⟩
  | int digits value =>
    obtain ⟨c, cs, hread, hstarts⟩ := starts_of_digits digits value
    exact ⟨c, cs, hread, hstarts rest⟩
  | negative digits value => exact ⟨_, _, rfl, starts_of_negative digits value rest⟩
  | str delimiter =>
    have hcode := isQuote_iff.1 delimiter
    exact ⟨_, _, rfl, starts_of_graphic (by omega) (by omega) _⟩

end Forward

section Exhaustion

variable {c : Char} {cs : List Char}

/-- The inside of a string is followed by its closing quote, or it stops. -/
theorem exists_quotes (quote : Char) (cs : List Char) :
    ∃ text body tail, Quotes quote text body ∧ cs = body ++ tail ∧
      ((∃ more, tail = quote :: more) ∨
        ∃ fault read rest, tail = read ++ rest ∧ Stops fault read rest) := by
  match cs with
  | [] => exact ⟨[], [], [], .nil, rfl, .inr ⟨_, [], [], rfl, .text⟩⟩
  | c :: cs =>
    by_cases hfeed : c = '\n'
    · subst hfeed
      exact ⟨[], [], _, .nil, rfl, .inr ⟨_, ['\n'], cs, rfl, .line⟩⟩
    by_cases hquote : c = quote
    · exact ⟨[], [], _, .nil, rfl, .inl ⟨cs, hquote ▸ rfl⟩⟩
    by_cases hslash : c = '\\'
    · subst hslash
      cases cs with
      | nil => exact ⟨[], [], _, .nil, rfl, .inr ⟨_, ['\\'], [], rfl, .backslash⟩⟩
      | cons e cs =>
        cases hescape : unescape? e with
        | none => exact ⟨[], [], _, .nil, rfl, .inr ⟨_, ['\\', e], cs, rfl, .escape hescape⟩⟩
        | some d =>
          obtain ⟨text, body, tail, quotes, rfl, htail⟩ := exists_quotes quote cs
          exact ⟨d :: text, '\\' :: e :: body, tail, .escaped hescape quotes, rfl, htail⟩
    · obtain ⟨text, body, tail, quotes, rfl, htail⟩ := exists_quotes quote cs
      exact ⟨c :: text, c :: body, tail, .plain hfeed hquote hslash quotes, rfl, htail⟩

/-- What follows the characters of a kind is of another kind. -/
theorem eq_false_of_head?_dropWhile {f : Char → Bool} :
    ∀ d ∈ (cs.dropWhile f).head?, f d = false := by
  intro d hd
  have hhead := List.head?_dropWhile_not f cs
  rw [Option.mem_def.1 hd] at hhead
  exact hhead

/-- All the digits at the beginning of a text spell a number. -/
theorem exists_digits (first : c.isDigit = true) (cs : List Char) :
    ∃ ds rest n, cs = ds ++ rest ∧ (∀ d ∈ c :: ds, d.isDigit = true) ∧
      natural? 10 (c :: ds) = some n ∧ ∀ d ∈ rest.head?, d.isDigit = false := by
  have hdigits : ∀ d ∈ c :: cs.takeWhile Char.isDigit, d.isDigit = true :=
    List.forall_mem_cons.2 ⟨first, List.all_eq_true.1 List.all_takeWhile⟩
  have hvalue := readOn?_eq_of_isDigit hdigits 0
  exact ⟨_, _, _, List.takeWhile_append_dropWhile.symm, hdigits, hvalue,
    eq_false_of_head?_dropWhile⟩

/-- What begins like a token is one, or it is faulty. -/
theorem exists_lexeme (starts : Starts c cs) :
    (∃ t spelling more, Spells t (c :: spelling) ∧ t.Ends more ∧ cs = spelling ++ more) ∨
      ∃ fault read rest, Faulty fault (c :: read) rest ∧ cs = read ++ rest := by
  by_cases hdash : c = '-'
  · subst hdash
    by_cases hnumber : ∀ d ∈ cs.head?, d.isDigit = false
    · exact .inr ⟨_, [], cs, .loneDash hnumber (starts.outside rfl), rfl⟩
    · simp only [not_forall, Bool.not_eq_false] at hnumber
      obtain ⟨d, hhead, hdigit⟩ := hnumber
      obtain ⟨more, rfl⟩ := List.head?_eq_some_iff.1 hhead
      obtain ⟨ds, rest, n, rfl, digits, value, ends⟩ := exists_digits hdigit more
      cases hfits : word? (n : Int) with
      | some w => exact .inl ⟨_, d :: ds, rest, .negative digits value hfits, ends, rfl⟩
      | none => exact .inr ⟨_, d :: ds, rest,
          .negative digits value (word?_eq_none_iff.1 hfits) ends, rfl⟩
  by_cases hdigit : c.isDigit = true
  · obtain ⟨ds, rest, n, rfl, digits, value, ends⟩ := exists_digits hdigit cs
    cases hfits : word? (n : Int) with
    | some w => exact .inl ⟨_, ds, rest, .int digits value hfits, ends, rfl⟩
    | none => exact .inr ⟨_, ds, rest, .int digits value (word?_eq_none_iff.1 hfits) ends, rfl⟩
  by_cases hquote : isQuote c = true
  · obtain ⟨text, body, tail, quotes, rfl, ⟨more, rfl⟩ | ⟨fault, read, rest, rfl, stops⟩⟩ :=
      exists_quotes c cs
    · exact .inl ⟨_, body ++ [c], more, .str hquote quotes, trivial, by simp⟩
    · exact .inr ⟨fault, body ++ read, rest, .str hquote quotes stops, by simp⟩
  by_cases hword : isWordStart c = true
  · have hidentifier : isIdentifier (c :: cs.takeWhile isWordChar) = true := by
      rw [isIdentifier, hword, Bool.true_and]
      exact List.all_takeWhile
    exact .inl ⟨_, _, cs.dropWhile isWordChar, .word hidentifier, eq_false_of_head?_dropWhile,
      List.takeWhile_append_dropWhile.symm⟩
  cases hmark : Mark.ofChar? c with
  | some m => exact .inl ⟨_, [], cs, .mark hmark, trivial, rfl⟩
  | none =>
    rw [Bool.not_eq_true] at hdigit hquote hword
    exact .inr ⟨_, [], cs, .character starts.seen hdash hdigit hquote hword hmark, rfl⟩

/-- What is read as a token is one of its spellings. -/
theorem spells_of_lexeme (starts : Starts c cs) {p : Position} {t : Token} {rest : Rest}
    (h : lexeme p c cs = .ok (t, rest)) :
    ∃ spelling, Spells t (c :: spelling) ∧ t.Ends rest.text ∧ cs = spelling ++ rest.text ∧
      rest.position = p.afterAll (c :: spelling) := by
  obtain ⟨t, spelling, more, spells, ends, rfl⟩ | ⟨fault, read, more, faulty, rfl⟩ :=
    exists_lexeme starts
  · rw [lexeme_of_spells spells ends] at h
    cases h
    exact ⟨spelling, spells, ends, rfl, rfl⟩
  · rw [lexeme_of_faulty faulty] at h
    cases h

/-- What is not read as a token is faulty. -/
theorem faulty_of_lexeme (starts : Starts c cs) {p : Position} {e : SyntaxError}
    (h : lexeme p c cs = .error e) :
    ∃ read rest, Faulty e.fault (c :: read) rest ∧ cs = read ++ rest ∧
      e.position = p.afterAll (c :: read) := by
  obtain ⟨t, spelling, more, spells, ends, rfl⟩ | ⟨fault, read, rest, faulty, rfl⟩ :=
    exists_lexeme starts
  · rw [lexeme_of_spells spells ends] at h
    cases h
  · rw [lexeme_of_faulty faulty] at h
    cases h
    exact ⟨read, rest, faulty, rfl, rfl⟩

end Exhaustion

section Texts

variable {text before read : List Char} {fault : SyntaxFault}

/-- Reading the text fails at a faulty part: the characters were read of it, and before it stand
written tokens and layout. -/
inductive FailsAt : List Char → List Char → SyntaxFault → List Char → Prop where
  | intro {ws : List Written} {gap read rest : List Char} {fault : SyntaxFault}
      (apart : Apart ws (gap ++ (read ++ rest))) (layout : Layout gap)
      (faulty : Faulty fault read rest) :
      FailsAt (textOf ws ++ (gap ++ (read ++ rest))) (textOf ws ++ gap) fault read

/-- A text also fails behind one more token. -/
theorem FailsAt.cons (h : FailsAt text before fault read) {w : Written} (ends : w.token.Ends text) :
    FailsAt (w.text ++ text) (w.text ++ before) fault read := by
  obtain @⟨ws, gap, _, rest, _, apart, layout, faulty⟩ := h
  have hfails := @FailsAt.intro (w :: ws) gap read rest _ ⟨ends, apart⟩ layout faulty
  rw [textOf_cons, List.append_assoc, List.append_assoc] at hfails
  exact hfails

theorem map_eq_error_iff {ε α β : Type} {f : α → β} {x : Except ε α} {e : ε} :
    x.map f = .error e ↔ x = .error e := by
  cases x <;> simp [Except.map]

/-- At a faulty part the text is given up. -/
theorem tokensFrom_of_failsAt (h : FailsAt text before fault read) :
    tokensFrom .start text = .error ⟨fault, .behind (before ++ read)⟩ := by
  obtain @⟨ws, gap, _, rest, _, apart, layout, faulty⟩ := h
  obtain ⟨c, cs, rfl, hstarts⟩ := faulty.starts
  have hskip : skipLayout false (.behind (textOf ws)) (gap ++ (c :: cs ++ rest)) =
      ⟨.behind (textOf ws ++ gap), c :: (cs ++ rest)⟩ := by
    rw [skipLayout_append layout, ← Position.behind_append, List.cons_append,
      skipLayout_of_starts hstarts]
  have hlexeme := lexeme_of_faulty faulty (.behind (textOf ws ++ gap))
  rw [← Position.behind_append] at hlexeme
  have hread := tokensFrom_textOf apart []
  rw [List.nil_append, tokensFrom_of_skip hskip, hlexeme] at hread
  exact hread

/-- Where a text is given up, there is a faulty part. -/
theorem exists_failsAt {p : Position} {e : SyntaxError} (h : tokensFrom p text = .error e) :
    ∃ before read, FailsAt text before e.fault read ∧ e.position = p.afterAll (before ++ read) := by
  fun_induction tokensFrom p text with
  | case1 => cases h
  | case2 p cs q c more hskip e' hlexeme =>
    cases h
    obtain ⟨gap, rfl, rfl, hstarts, hlayout⟩ := exists_layout hskip
    obtain ⟨read, rest, faulty, rfl, hposition⟩ := faulty_of_lexeme hstarts hlexeme
    refine ⟨gap, c :: read, @FailsAt.intro [] gap _ rest _ trivial hlayout faulty, ?_⟩
    rw [hposition, Position.afterAll_append]
  | case3 p cs q c more hskip token rest hlexeme _ ih =>
    obtain ⟨before, read, hfails, hposition⟩ := ih (map_eq_error_iff.1 h)
    obtain ⟨gap, rfl, rfl, hstarts, hlayout⟩ := exists_layout hskip
    obtain ⟨spelling, spells, ends, rfl, hrest⟩ := spells_of_lexeme hstarts hlexeme
    let w : Written := ⟨token, gap, c :: spelling, hlayout, spells⟩
    have hcons := hfails.cons (w := w) ends
    rw [Written.text, List.append_assoc] at hcons
    refine ⟨_, read, hcons, ?_⟩
    simp only [w, hposition, hrest, Position.afterAll_append]

/-- The inside of a string stays on its line. -/
theorem Quotes.not_mem {quote : Char} {text body : List Char} (h : Quotes quote text body) :
    '\n' ∉ body := by
  induction h with
  | nil => exact List.not_mem_nil
  | plain feed _ _ _ ih => simp [feed.symm, ih]
  | @escaped _ e _ _ escape _ ih =>
    have hfeed : '\n' ≠ e := by
      rintro rfl
      cases escape
    simp [hfeed, ih]

theorem not_mem_of_digits {ds : List Char} (digits : ∀ d ∈ ds, d.isDigit = true) : '\n' ∉ ds :=
  fun hmem => absurd (digits _ hmem) (by decide)

/-- What was read of a faulty part is on one line, or it is a string that ends with its line. -/
theorem Faulty.on_line {rest : List Char} (h : Faulty fault read rest) :
    '\n' ∉ read ∨ ∃ opened, read = opened ++ ['\n'] ∧ '\n' ∉ opened ∧
      (fault = .unfinishedString ∨ fault = .escape) := by
  cases h with
  | loneDash => exact .inl (by decide)
  | @character c _ seen =>
    refine .inl fun hmem => ?_
    rw [← List.mem_singleton.1 hmem] at seen
    exact absurd seen (by decide)
  | int digits => exact .inl (not_mem_of_digits digits)
  | negative digits => exact .inl (by simp [not_mem_of_digits digits])
  | @str quote _ body _ _ _ delimiter quotes stops =>
    have hopened : '\n' ∉ quote :: body := by
      have hquote : '\n' ≠ quote := by rintro rfl; exact absurd delimiter (by decide)
      simp [hquote, quotes.not_mem]
    cases stops with
    | line => exact .inr ⟨quote :: body, rfl, hopened, .inl rfl⟩
    | text | backslash => exact .inl (by simpa using hopened)
    | @escape e =>
      by_cases he : e = '\n'
      · subst he
        exact .inr ⟨quote :: (body ++ ['\\']), by simp, by simpa using hopened, .inr rfl⟩
      · exact .inl (by simpa [Ne.symm he] using hopened)

/-- Where a fault is reported whose first character stands at a position: behind the characters that
were read, if they are on one line, and else where the next line begins. -/
inductive Reported (first : Position) (fault : SyntaxFault) : List Char → Position → Prop where
  | onLine {read : List Char} (line : '\n' ∉ read) :
      Reported first fault read ⟨first.line, first.column + read.length⟩
  | nextLine {opened : List Char} (line : '\n' ∉ opened)
      (string : fault = .unfinishedString ∨ fault = .escape) :
      Reported first fault (opened ++ ['\n']) ⟨first.line + 1, 1⟩

theorem reported_iff {rest : List Char} (h : Faulty fault read rest) {first p : Position} :
    Reported first fault read p ↔ p = first.afterAll read := by
  constructor
  · intro hreported
    cases hreported with
    | onLine line => exact (Position.afterAll_of_not_mem line first).symm
    | nextLine line => exact (Position.afterAll_newline line first).symm
  · rintro rfl
    obtain line | ⟨opened, rfl, line, string⟩ := h.on_line
    · rw [Position.afterAll_of_not_mem line]
      exact .onLine line
    · rw [Position.afterAll_newline line]
      exact .nextLine line string

theorem FailsAt.reported_iff (h : FailsAt text before fault read) {p : Position} :
    Reported (.behind before) fault read p ↔ p = .behind (before ++ read) := by
  cases h with
  | intro _ _ faulty => rw [Script.reported_iff faulty, ← Position.behind_append]

/-- A text is not read as tokens exactly if it has a faulty part. The fault is reported on the line of
the first character of that part, one column behind the characters that were read of it. If a string
ends with its line, even behind a backslash, it is reported at the start of the next line. -/
theorem ofText_eq_error_iff {source : String} {e : SyntaxError} :
    Tokens.ofText source = .error e ↔
      ∃ before read, FailsAt source.toList before e.fault read ∧
        Reported (.behind before) e.fault read e.position := by
  constructor
  · intro h
    obtain ⟨before, read, hfails, hposition⟩ := exists_failsAt h
    rw [Position.afterAll_start] at hposition
    exact ⟨before, read, hfails, hfails.reported_iff.2 hposition⟩
  · rintro ⟨before, read, hfails, hreported⟩
    rw [Tokens.ofText, tokensFrom_of_failsAt hfails, ← hfails.reported_iff.1 hreported]

/-- An integer behind a word and on the second line, one more than the greatest one. -/
theorem large_integer_located :
    Tokens.ofText "link\n 9223372036854775808;" =
      .error ⟨.outOfRange "9223372036854775808", ⟨2, 21⟩⟩ := by
  have hword : (Token.word "link").Legible := by decide
  have hlayout : Layout ['\n', ' '] := .blank rfl (.blank rfl .nil)
  have hends : ∀ d ∈ [';'].head?, d.isDigit = false := by
    intro d hd
    cases hd
    decide
  have hfaulty : Faulty (.outOfRange "9223372036854775808") "9223372036854775808".toList [';'] :=
    .int (n := 9223372036854775808) (List.all_eq_true.1 (by decide)) (by decide) (by decide) hends
  have hapart : Apart [.usual .nil hword] (['\n', ' '] ++ ("9223372036854775808".toList ++ [';'])) :=
    ⟨fun d hd => by cases hd; decide, trivial⟩
  exact ofText_eq_error_iff.2 ⟨_, _, .intro hapart hlayout hfaulty, .onLine (by decide)⟩

/-- A string that begins on the first line and ends with it is reported on the second one. -/
theorem string_reported_below :
    FailsAt "link \"open\n".toList "link ".toList .unfinishedString "\"open\n".toList ∧
      Position.behind "link ".toList = ⟨1, 6⟩ ∧
      Tokens.ofText "link \"open\n" = .error ⟨.unfinishedString, ⟨2, 1⟩⟩ := by
  have hword : (Token.word "link").Legible := by decide
  have hlayout : Layout [' '] := .blank rfl .nil
  have hfaulty : Faulty .unfinishedString ('"' :: ("open".toList ++ ['\n'])) [] :=
    .str rfl (quotes_escapeQuoted "open".toList) .line
  have hapart : Apart [.usual .nil hword] ([' '] ++ ('"' :: ("open".toList ++ ['\n']) ++ [])) :=
    ⟨fun d hd => by cases hd; decide, trivial⟩
  have hfails := FailsAt.intro hapart hlayout hfaulty
  exact ⟨hfails, by decide, tokensFrom_of_failsAt hfails⟩

end Texts

end ScriptBuild.Script
