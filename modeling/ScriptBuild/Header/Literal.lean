import ScriptBuild.Arithmetic
import ScriptBuild.Constant
import ScriptBuild.Text.Blank
import ScriptBuild.Text.Numeral

/-!
# Literals of a header

The body of a definition is a constant if it is an integer or a string literal, perhaps in
parentheses. Integers are written in decimal, in octal after a zero or in hexadecimal after `0x`,
with any of the suffix letters `u` and `l` behind them. A comment ends the body wherever it starts.
In checked arithmetic a body may overflow, which is neither a constant nor none.
`beforeComment_isPrefix` says that only the end of a body is cut off.
-/

namespace ScriptBuild.Header

open Text

/-- The part of a body in front of the first comment. -/
def beforeComment : List Char → List Char
  | [] => []
  | c :: cs =>
    if c = '/' && (cs.head? == some '/' || cs.head? == some '*') then []
    else c :: beforeComment cs

/-- What stands between two characters that begin and end a text. -/
def between? (left right : Char) : List Char → Option (List Char)
  | [] => none
  | c :: cs => if c = left && cs.getLast? == some right then some cs.dropLast else none

/-- The letters that may follow an integer. -/
def isSuffix (c : Char) : Bool :=
  c == 'u' || c == 'U' || c == 'l' || c == 'L'

/-- The number that a numeral spells, in the base that its first characters announce. Behind the
announcement of base eight or sixteen the digits may have a sign. -/
def magnitude? (cs : List Char) : Option Int :=
  match cs with
  | '0' :: 'x' :: digits => signed? 16 digits
  | '0' :: 'X' :: digits => signed? 16 digits
  | '0' :: d :: digits => signed? 8 (d :: digits)
  | digits => (natural? 10 digits).map Int.ofNat

/-- The integer that a body spells. A minus sign in front, blanks behind it allowed, negates the
word that the numeral spells. -/
def integer? (a : Arithmetic) (body : List Char) : Except Overflow (Option Int64) :=
  let negative := body.head? == some '-'
  let numeral := if negative then trimStart body.tail else body
  let digits := (numeral.reverse.dropWhile isSuffix).reverse
  match (magnitude? digits).bind word? with
  | none => .ok none
  | some w => if negative then (a.negate w).map some else .ok (some w)

theorem length_trim_le (cs : List Char) : (trim cs).length ≤ cs.length := by
  have drop : ∀ xs : List Char, (xs.dropWhile isBlank).length ≤ xs.length :=
    fun xs => (List.dropWhile_sublist _).length_le
  simp only [trim, trimEnd, trimStart, List.length_reverse]
  exact Nat.le_trans (drop _) (by simpa using drop cs)

theorem length_between? {left right : Char} {cs inner : List Char}
    (h : between? left right cs = some inner) : inner.length < cs.length := by
  cases cs with
  | nil => simp [between?] at h
  | cons c cs =>
    simp only [between?, Option.ite_none_right_eq_some, Option.some.injEq] at h
    rw [← h.2, List.length_dropLast, List.length_cons]
    omega

/-- The constant that a body spells: in parentheses, in quotes, or an integer. -/
def constant? (a : Arithmetic) (body : List Char) : Except Overflow (Option Constant) :=
  match h : between? '(' ')' body with
  | some inner =>
    have := Nat.lt_of_le_of_lt (length_trim_le inner) (length_between? h)
    constant? a (trim inner)
  | none =>
    match between? '"' '"' body with
    | some text => .ok (if text.contains '"' then none else some (.str (String.ofList text)))
    | none => (integer? a body).map fun v => v.map .int
termination_by body.length

theorem beforeComment_isPrefix (cs : List Char) : beforeComment cs <+: cs := by
  induction cs with
  | nil => exact List.nil_prefix
  | cons c cs ih =>
    unfold beforeComment
    split
    · exact List.nil_prefix
    · simpa using ih

end ScriptBuild.Header
