import ScriptBuild.Script.SyntaxError
import ScriptBuild.Text.Blank
import ScriptBuild.Text.Numeral

/-!
# Tokens

A script is read as words, integers, strings and marks. Blanks and comments, which run from two
dashes to the end of the line, only separate them. Each token carries the position of its first
character. The recursion over a text ends because a token takes at least one character
(`lexeme_length`); `skipLayout_length` says that skipping adds none.
-/

namespace ScriptBuild.Script

open Text

/-- The marks that hold a script together. -/
inductive Mark where
  | equals
  | dot
  | comma
  | semicolon
  | openParen
  | closeParen
  | openBrace
  | closeBrace
  deriving DecidableEq, Repr

/-- The mark that a character is. -/
def Mark.ofChar? : Char → Option Mark
  | '=' => some equals
  | '.' => some dot
  | ',' => some comma
  | ';' => some semicolon
  | '(' => some openParen
  | ')' => some closeParen
  | '\x7b' => some openBrace
  | '\x7d' => some closeBrace
  | _ => none

/-- A token of a script. -/
inductive Token where
  /-- A keyword or a name. -/
  | word (text : String)
  | int (value : Int64)
  | str (text : String)
  | mark (m : Mark)
  deriving DecidableEq, Repr

/-- A token and the position of its first character. -/
structure Placed where
  token : Token
  position : Position
  deriving DecidableEq, Repr

/-- The tokens of a script, and the position at which it ends. -/
structure Tokens where
  list : List Placed
  finish : Position
  deriving DecidableEq, Repr

/-- The character may begin a word. -/
def isWordStart (c : Char) : Bool :=
  c.isAlpha || c == '_'

/-- The character may stand in a word. -/
def isWordChar (c : Char) : Bool :=
  c.isAlphanum || c == '_'

/-- The character opens and closes strings. -/
def isQuote (c : Char) : Bool :=
  c == '"' || c == '\''

/-- The character that an escape stands for, by the character after the backslash. -/
def unescape? : Char → Option Char
  | 'n' => some '\n'
  | 't' => some '\t'
  | '0' => some '\x00'
  | '\\' => some '\\'
  | '"' => some '"'
  | '\'' => some '\''
  | _ => none

/-- What a token leaves to read: the position after it and the text from there. -/
structure Rest where
  position : Position
  text : List Char
  deriving DecidableEq, Repr

/-- The text from the first character that belongs to a token. Inside a comment all characters up
to the end of the line are skipped. -/
def skipLayout (inComment : Bool) : Position → List Char → Rest
  | p, [] => ⟨p, []⟩
  | p, c :: cs =>
    if inComment then skipLayout (c ≠ '\n') (p.after c) cs
    else if isBlank c then skipLayout false (p.after c) cs
    else if c = '-' && cs.head? == some '-' then skipLayout true (p.after c) cs
    else ⟨p, c :: cs⟩

/-- The integer that the digits at the start of a text spell, with a minus sign if `negative`. -/
def integer (negative : Bool) (p : Position) (cs : List Char) : Except SyntaxError (Token × Rest) :=
  let digits := cs.takeWhile (·.isDigit)
  let rest := ⟨p.afterAll digits, cs.dropWhile (·.isDigit)⟩
  match (natural? 10 digits).bind fun n => word? n with
  | some w => .ok (.int (if negative then -w else w), rest)
  | none => .error ⟨.outOfRange (String.ofList digits), rest.position⟩

/-- The characters of a string up to its closing quote, escapes replaced. -/
def quoted (quote : Char) : Position → List Char → Except SyntaxError (List Char × Rest)
  | p, [] => .error ⟨.unfinishedString, p⟩
  | p, c :: cs =>
    if c = '\n' then .error ⟨.unfinishedString, p.after c⟩
    else if c = quote then .ok ([], ⟨p.after c, cs⟩)
    else if c = '\\' then
      match cs with
      | [] => .error ⟨.escape, p.after c⟩
      | e :: cs =>
        let q := (p.after c).after e
        match unescape? e with
        | none => .error ⟨.escape, q⟩
        | some d => (quoted quote q cs).map fun r => (d :: r.1, r.2)
    else (quoted quote (p.after c) cs).map fun r => (c :: r.1, r.2)

/-- The token that begins with the character `c`, at position `p`, and what it leaves. -/
def lexeme (p : Position) (c : Char) (cs : List Char) : Except SyntaxError (Token × Rest) :=
  if c = '-' then
    if (cs.head?.map Char.isDigit).getD false then integer true (p.after c) cs
    else .error ⟨.loneDash, p.after c⟩
  else if c.isDigit then integer false p (c :: cs)
  else if isQuote c then
    (quoted c (p.after c) cs).map fun r => (.str (String.ofList r.1), r.2)
  else if isWordStart c then
    let word := c :: cs.takeWhile isWordChar
    .ok (.word (String.ofList word), ⟨p.afterAll word, cs.dropWhile isWordChar⟩)
  else match Mark.ofChar? c with
    | some m => .ok (.mark m, ⟨p.after c, cs⟩)
    | none => .error ⟨.character c, p.after c⟩

theorem length_dropWhile_le {α : Type} (f : α → Bool) (xs : List α) :
    (xs.dropWhile f).length ≤ xs.length :=
  (List.dropWhile_sublist f).length_le

theorem skipLayout_length (inComment : Bool) (p : Position) (cs : List Char) :
    (skipLayout inComment p cs).text.length ≤ cs.length := by
  fun_induction skipLayout inComment p cs with
  | case1 => exact Nat.le_refl _
  | case2 => exact Nat.le_succ_of_le ‹_›
  | case3 => exact Nat.le_succ_of_le ‹_›
  | case4 => exact Nat.le_succ_of_le ‹_›
  | case5 => exact Nat.le_refl _

theorem map_eq_ok_iff {ε α β : Type} {f : α → β} {x : Except ε α} {b : β} :
    x.map f = .ok b ↔ ∃ a, x = .ok a ∧ f a = b := by
  cases x <;> simp [Except.map]

theorem quoted_length {quote : Char} {p : Position} {cs : List Char} {r : List Char × Rest}
    (h : quoted quote p cs = .ok r) : r.2.text.length < cs.length := by
  fun_induction quoted quote p cs generalizing r with
  | case1 => cases h
  | case2 => cases h
  | case3 => cases h; simp
  | case4 => cases h
  | case5 => cases h
  | case6 =>
    rename_i ih
    obtain ⟨r', hr, rfl⟩ := map_eq_ok_iff.1 h
    have shorter := ih hr
    exact Nat.lt_succ_of_lt (Nat.lt_succ_of_lt shorter)
  | case7 p c cs hn hq hb ih =>
    obtain ⟨r', hr, rfl⟩ := map_eq_ok_iff.1 h
    have shorter := ih hr
    exact Nat.lt_succ_of_lt shorter

theorem integer_text {negative : Bool} {p : Position} {cs : List Char} {r : Token × Rest}
    (h : integer negative p cs = .ok r) : r.2.text = cs.dropWhile (·.isDigit) := by
  simp only [integer] at h
  split at h
  · exact (congrArg (fun x => x.2.text) (Except.ok.inj h)).symm
  · cases h

/-- A token takes its first character at least. -/
theorem lexeme_length {p : Position} {c : Char} {cs : List Char} {r : Token × Rest}
    (h : lexeme p c cs = .ok r) : r.2.text.length ≤ cs.length := by
  unfold lexeme at h
  split at h
  · split at h
    · rw [integer_text h]
      exact length_dropWhile_le _ _
    · cases h
  · split at h
    · next hd =>
      rw [integer_text h, List.dropWhile_cons_of_pos hd]
      exact length_dropWhile_le _ _
    · split at h
      · obtain ⟨r', hr, rfl⟩ := map_eq_ok_iff.1 h
        exact Nat.le_of_lt (quoted_length hr)
      · split at h
        · cases h
          exact length_dropWhile_le _ _
        · split at h <;> cases h
          exact Nat.le_refl _

/-- After the layout and one token less text is left. -/
theorem lexeme_shorter {p q : Position} {cs text : List Char} {c : Char} {r : Token × Rest}
    (h : skipLayout false p cs = ⟨q, c :: text⟩) (hr : lexeme q c text = .ok r) :
    r.2.text.length < cs.length := by
  have left := skipLayout_length false p cs
  rw [h] at left
  exact Nat.lt_of_lt_of_le (Nat.lt_succ_of_le (lexeme_length hr)) left

/-- The tokens of a text that starts at position `p`. -/
def tokensFrom (p : Position) (cs : List Char) : Except SyntaxError Tokens :=
  match h : skipLayout false p cs with
  | ⟨q, []⟩ => .ok ⟨[], q⟩
  | ⟨q, c :: text⟩ =>
    match hr : lexeme q c text with
    | .error e => .error e
    | .ok (token, rest) =>
      have := lexeme_shorter h hr
      (tokensFrom rest.position rest.text).map fun more => ⟨⟨token, q⟩ :: more.list, more.finish⟩
termination_by cs.length

/-- The tokens of a script. -/
def Tokens.ofText (source : String) : Except SyntaxError Tokens :=
  tokensFrom .start source.toList

end ScriptBuild.Script
