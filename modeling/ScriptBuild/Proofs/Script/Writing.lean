import ScriptBuild.Proofs.Script.Layout
import ScriptBuild.Proofs.Script.Position

/-!
# Tokens in writing

A script is written token by token, each in one of its spellings behind some layout. Main statements:
`ofText_textOf` says that the tokens are read back from such a text, each at the position of its
first character, and `tokens_of_spelled` that this holds of the usual spellings with blanks between
them. `tokensFrom_textOf` tells how a text is read that only begins with written tokens.
-/

namespace ScriptBuild.Script

/-- A token as it stands in a script: one of its spellings, behind the layout in front of it. -/
structure Written where
  token : Token
  gap : List Char
  spelling : List Char
  layout : Layout gap
  spells : Spells token spelling

/-- The layout and the spelling. -/
def Written.text (w : Written) : List Char :=
  w.gap ++ w.spelling

/-- The tokens one after the other. -/
def textOf (ws : List Written) : List Char :=
  ws.flatMap Written.text

@[simp] theorem textOf_nil : textOf [] = [] :=
  rfl

@[simp] theorem textOf_cons (w : Written) (ws : List Written) :
    textOf (w :: ws) = w.text ++ textOf ws :=
  List.flatMap_cons

/-- Each of the tokens ends with its spelling, although a text follows. -/
def Apart : List Written → List Char → Prop
  | [], _ => True
  | w :: ws, more => w.token.Ends (textOf ws ++ more) ∧ Apart ws more

/-- The tokens with the positions of their first characters, behind a text. -/
def placed (before : List Char) : List Written → List Placed
  | [] => []
  | w :: ws => ⟨w.token, .behind (before ++ w.gap)⟩ :: placed (before ++ w.text) ws

theorem map_token_placed (before : List Char) (ws : List Written) :
    (placed before ws).map (·.token) = ws.map (·.token) := by
  induction ws generalizing before with
  | nil => rfl
  | cons w ws ih => simp [placed, ih]

/-- Layout between the tokens keeps them apart. -/
theorem apart_of_gaps {ws : List Written} {more : List Char} (gaps : ∀ w ∈ ws.tail, w.gap ≠ [])
    (breaks : Breaks more) : Apart ws more := by
  induction ws with
  | nil => trivial
  | cons w ws ih =>
    refine ⟨Breaks.ends ?_ w.token, ih fun v hv => gaps v (List.mem_of_mem_tail hv)⟩
    cases ws with
    | nil => exact breaks
    | cons v ws =>
      obtain ⟨d, gap, hgap⟩ := List.exists_cons_of_ne_nil (gaps v List.mem_cons_self)
      have hbreaks := v.layout.breaks
      rw [hgap] at hbreaks
      intro c hc
      apply hbreaks c
      simpa [Written.text, hgap] using hc

theorem tokensFrom_written {w : Written} {more : List Char} (ends : w.token.Ends more)
    (p : Position) :
    tokensFrom p (w.text ++ more) = (tokensFrom (p.afterAll w.text) more).map fun rest =>
      ⟨⟨w.token, p.afterAll w.gap⟩ :: rest.list, rest.finish⟩ := by
  obtain ⟨c, cs, hspelling, hstarts⟩ := w.spells.starts
  have hskip : skipLayout false p (w.text ++ more) = ⟨p.afterAll w.gap, c :: (cs ++ more)⟩ := by
    rw [Written.text, List.append_assoc, skipLayout_append w.layout, hspelling, List.cons_append,
      skipLayout_of_starts (hstarts more)]
  have hlexeme := lexeme_of_spells (hspelling ▸ w.spells) ends (p.afterAll w.gap)
  rw [tokensFrom_of_skip hskip, hlexeme, Written.text, hspelling, Position.afterAll_append]
  rfl

/-- Written tokens are read one after the other, whatever follows them. -/
theorem tokensFrom_textOf {ws : List Written} {more : List Char} (apart : Apart ws more)
    (before : List Char) :
    tokensFrom (.behind before) (textOf ws ++ more) =
      (tokensFrom (.behind (before ++ textOf ws)) more).map fun rest =>
        ⟨placed before ws ++ rest.list, rest.finish⟩ := by
  induction ws generalizing before with
  | nil =>
    rw [textOf_nil, List.append_nil, List.nil_append]
    cases tokensFrom (.behind before) more <;> rfl
  | cons w ws ih =>
    obtain ⟨ends, apart⟩ := apart
    rw [textOf_cons, List.append_assoc, tokensFrom_written ends, ← Position.behind_append,
      ← Position.behind_append, ih apart, ← List.append_assoc]
    cases tokensFrom (.behind (before ++ w.text ++ textOf ws)) more <;> rfl

/-- Layout at the end of a text is no token. -/
theorem tokensFrom_layout {last : List Char} (layout : Layout last) (before : List Char) :
    tokensFrom (.behind before) last = .ok ⟨[], .behind (before ++ last)⟩ := by
  have hskip := skipLayout_append layout (.behind before) []
  rw [List.append_nil, ← Position.behind_append] at hskip
  exact tokensFrom_of_end hskip

/-- Tokens that are kept apart are read back from what is written, with layout at the end. -/
theorem ofText_of_apart {ws : List Written} {last : List Char} (apart : Apart ws last)
    (layout : Layout last) :
    Tokens.ofText (String.ofList (textOf ws ++ last)) =
      .ok ⟨placed [] ws, .behind (textOf ws ++ last)⟩ := by
  have hread := tokensFrom_textOf apart []
  rw [List.nil_append, tokensFrom_layout layout] at hread
  rw [Tokens.ofText, String.toList_ofList]
  refine hread.trans ?_
  simp [Except.map]

/-- Tokens are read back from any of their spellings, with any layout between them, in front of them
and at the end. The position of each is told by the text in front of its first character. -/
theorem ofText_textOf {ws : List Written} {last : List Char}
    (gaps : ∀ w ∈ ws.tail, w.gap ≠ []) (layout : Layout last) :
    Tokens.ofText (String.ofList (textOf ws ++ last)) =
      .ok ⟨placed [] ws, .behind (textOf ws ++ last)⟩ :=
  ofText_of_apart (apart_of_gaps gaps layout.breaks) layout

/-- A token in its usual spelling. -/
def Written.usual {gap : List Char} (layout : Layout gap) {t : Token} (h : t.Legible) : Written :=
  ⟨t, gap, t.spell, layout, spells_spell h⟩

theorem ofText_link :
    Tokens.ofText "link --'\n -05\t'\\''" =
      .ok ⟨[⟨.word "link", ⟨1, 1⟩⟩, ⟨.int (-5), ⟨2, 2⟩⟩, ⟨.str "'", ⟨2, 6⟩⟩], ⟨2, 10⟩⟩ := by
  have hinside : '\n' ∉ ['\''] := by decide
  have hcomment : Layout [' ', '-', '-', '\'', '\n', ' '] :=
    .blank rfl (.comment hinside (.blank rfl .nil))
  have htab : Layout ['\t'] := .blank rfl .nil
  have hword : (Token.word "link").Legible := by decide
  have hdigits : Spells (.int (-5)) ['-', '0', '5'] :=
    .negative (n := 5) (w := 5) (List.all_eq_true.1 (by decide)) (by decide) (by decide)
  have hquotes : Spells (.str "'") ['\'', '\\', '\'', '\''] :=
    .str (by decide) (.escaped rfl .nil)
  let ws : List Written :=
    [.usual .nil hword, ⟨_, _, _, hcomment, hdigits⟩, ⟨_, _, _, htab, hquotes⟩]
  exact @ofText_textOf ws [] (by simp [ws]) .nil

/-- Spelled tokens, with a blank in front of each. -/
def spelled (ts : List Token) : List Char :=
  ts.flatMap fun t => ' ' :: t.spell

theorem exists_written {ts : List Token} (h : ∀ t ∈ ts, t.Legible) :
    ∃ ws, textOf ws = spelled ts ∧ ws.map (·.token) = ts ∧ ∀ w ∈ ws, w.gap ≠ [] := by
  induction ts with
  | nil => exact ⟨[], rfl, rfl, by simp⟩
  | cons t ts ih =>
    obtain ⟨hlegible, hlegibles⟩ := List.forall_mem_cons.1 h
    obtain ⟨ws, htext, htokens, hgaps⟩ := ih hlegibles
    have hblank : Layout [' '] := .blank rfl .nil
    refine ⟨.usual hblank hlegible :: ws, ?_, ?_, ?_⟩
    · rw [textOf_cons, htext]
      rfl
    · rw [List.map_cons, htokens]
      rfl
    · exact List.forall_mem_cons.2 ⟨List.cons_ne_nil _ _, hgaps⟩

/-- Tokens are read back from their usual spellings. -/
theorem tokens_of_spelled {ts : List Token} (h : ∀ t ∈ ts, t.Legible) :
    ∃ tokens, Tokens.ofText (String.ofList (spelled ts)) = .ok tokens ∧
      tokens.list.map (·.token) = ts := by
  obtain ⟨ws, htext, htokens, hgaps⟩ := exists_written h
  have hapart : Apart ws [] :=
    apart_of_gaps (fun w hw => hgaps w (List.mem_of_mem_tail hw)) Layout.nil.breaks
  have hread := ofText_of_apart hapart .nil
  rw [htext, List.append_nil] at hread
  exact ⟨_, hread, (map_token_placed [] ws).trans htokens⟩

end ScriptBuild.Script
