import ScriptBuild.Proofs.Header.Inlining
import ScriptBuild.Proofs.Header.Integer
import ScriptBuild.Proofs.Script.Spelling

/-!
# Negated words

Scripts and headers have negative integers: the word behind a minus sign is read first and negated
then. Main statement: `negation_overflows_iff`, which says that a script negates only words whose
negative is a word, which bodies of a header do not, and that scans overflow at these alone.
-/

namespace ScriptBuild

namespace Script

/-- Reading the tokens of a text negates the word: it is the integer behind a dash. -/
inductive Negates : Position → List Char → Int64 → Prop where
  | here {p q : Position} {cs text : List Char} {w : Int64} {rest : Rest}
      (token : skipLayout false p cs = ⟨q, '-' :: text⟩)
      (digit : (text.head?.map Char.isDigit).getD false = true)
      (number : integer false (q.after '-') text = .ok (.int w, rest)) : Negates p cs w
  | later {p q : Position} {cs text : List Char} {c : Char} {t : Token} {w : Int64} {rest : Rest}
      (token : skipLayout false p cs = ⟨q, c :: text⟩) (read : lexeme q c text = .ok (t, rest))
      (more : Negates rest.position rest.text w) : Negates p cs w

/-- Behind a dash the negative of the integer is read. -/
theorem integer_negative {p : Position} {cs : List Char} {w : Int64} {rest : Rest}
    (h : integer false p cs = .ok (.int w, rest)) : integer true p cs = .ok (.int (-w), rest) := by
  simp only [integer] at h ⊢
  split at h
  · cases h
    rfl
  · cases h

/-- The token that a negated word stands in is its negative. -/
theorem Negates.exists_token {p : Position} {cs : List Char} {w : Int64} (h : Negates p cs w) :
    ∃ q text rest, lexeme q '-' text = .ok (.int (-w), rest) := by
  induction h with
  | @here p q cs text w rest token digit number =>
    refine ⟨q, text, rest, ?_⟩
    rw [lexeme, if_pos rfl, if_pos digit]
    exact integer_negative number
  | later _ _ _ ih => exact ih

/-- Digits alone spell no word whose negative is none. -/
theorem Negates.ne_minValue {p : Position} {cs : List Char} {w : Int64} (h : Negates p cs w) :
    w ≠ Int64.minValue := by
  induction h with
  | here _ _ number => exact legible_of_integer number
  | later _ _ _ ih => exact ih

end Script

namespace Header

open Text

/-- The body is the core in parentheses, in any number of them. -/
inductive Encloses : List Char → List Char → Prop where
  | core {body : List Char} (bare : between? '(' ')' body = none) : Encloses body body
  | paren {body inner core : List Char} (paren : between? '(' ')' body = some inner)
      (rest : Encloses (trim inner) core) : Encloses body core

theorem Encloses.bare {body core : List Char} (h : Encloses body core) :
    between? '(' ')' core = none := by
  induction h with
  | core bare => exact bare
  | paren _ _ ih => exact ih

theorem exists_encloses (body : List Char) : ∃ core, Encloses body core := by
  fun_induction constant? .wrapping body with
  | case1 _ _ paren _ ih =>
    obtain ⟨core, h⟩ := ih
    exact ⟨core, .paren paren h⟩
  | case2 body bare | case3 body bare => exact ⟨body, .core bare⟩

variable {a : Arithmetic} {o : Overflow} {body core : List Char} {source : String} {w : Int64}

/-- A body in parentheses is the constant that its core is. -/
theorem Encloses.constant?_eq (h : Encloses body core) : constant? a body = constant? a core := by
  induction h with
  | core => rfl
  | paren paren _ ih =>
    rw [← ih, constant?]
    split
    · next inner heq =>
      rw [paren] at heq
      cases heq
      rfl
    · next heq =>
      rw [paren] at heq
      cases heq

/-- Reading a body negates the word: it stands behind a minus sign in the core of the body. -/
structure BodyNegation (body core : List Char) (w : Int64) : Prop where
  encloses : Encloses body core
  unquoted : between? '"' '"' core = none
  negated : negated? core = some w

/-- A body with a negated word is its negative, or overflows. -/
theorem BodyNegation.constant?_eq (h : BodyNegation body core w) :
    constant? a body = (a.negate w).map fun v => some (.int v) := by
  have hnegated := h.negated
  have hhead : core.head? = some '-' := by
    unfold negated? at hnegated
    split at hnegated
    · next hdash => exact beq_iff_eq.1 hdash
    · cases hnegated
  obtain ⟨cs, rfl⟩ := List.head?_eq_some_iff.1 hhead
  rw [h.encloses.constant?_eq, constant?_of_bare h.encloses.bare h.unquoted,
    integer?_of_minus hnegated]
  cases a.negate w <;> rfl

/-- Reading a body overflows if it negates the least word in checked arithmetic. -/
theorem constant?_eq_error_iff :
    constant? a body = .error o ↔ a = .checked ∧ ∃ core, BodyNegation body core Int64.minValue := by
  constructor
  · intro h
    obtain ⟨core, hencloses⟩ := exists_encloses body
    have hcore := hencloses.constant?_eq.symm.trans h
    cases hquote : between? '"' '"' core with
    | some text =>
      rw [constant?] at hcore
      split at hcore
      · next inner hinner => cases hencloses.bare.symm.trans hinner
      · rw [hquote] at hcore
        cases hcore
    | none =>
      rw [constant?_of_bare hencloses.bare hquote] at hcore
      have hint : integer? a core = .error o := by
        cases hint : integer? a core with
        | error o => rfl
        | ok v =>
          rw [hint] at hcore
          cases hcore
      obtain ⟨hchecked, hwritten⟩ := integer?_eq_error_iff.1 hint
      have hword : negated? core = some Int64.minValue := negated?_of_written hwritten
      exact ⟨hchecked, core, hencloses, hquote, hword⟩
  · rintro ⟨rfl, core, h⟩
    rw [h.constant?_eq, Arithmetic.negate_eq_error_iff.2 ⟨rfl, rfl⟩]
    rfl

/-- Reading a header text negates the word: it stands behind a minus sign in a definition. -/
def Negation (source : String) (core : List Char) (w : Int64) : Prop :=
  ∃ name body, Directive.define name body ∈ Directive.ofText source ∧ BodyNegation body core w

section Scan

variable {fs : FileSystem} {directories : List Path}

/-- Where a scan overflows there is a definition that does, still to be read or in a header. -/
theorem exists_overflow_of_scanPending {unread : List Location} {scan : HeaderScan}
    {pending : List Pending}
    (h : scanPending a fs directories unread scan pending = .error .overflow) :
    ∃ name body, (∃ o, constant? a body = .error o) ∧
      ((∃ base, ⟨base, .define name body⟩ ∈ pending) ∨
        ∃ file text, fs.readText file = .ok text ∧
          Directive.define name body ∈ Directive.ofText text) := by
  fun_induction scanPending a fs directories unread scan pending with
  | case1 => cases h
  | case2 _ _ base name body _ o hdefine =>
    exact ⟨name, body, ⟨o, define_eq_error_iff.1 hdefine⟩, .inl ⟨base, List.mem_cons_self⟩⟩
  | case3 _ _ _ _ _ _ _ _ ih | case4 _ _ _ _ _ _ _ ih | case8 _ _ _ _ _ _ _ _ _ _ _ ih =>
    obtain ⟨name, body, hconstant, hplace⟩ := ih h
    refine ⟨name, body, hconstant, hplace.imp_left ?_⟩
    rintro ⟨base, hmem⟩
    exact ⟨base, List.mem_cons_of_mem _ hmem⟩
  | case5 => cases h
  | case6 => cases h
  | case7 _ _ _ _ _ _ _ _ loc _ _ _ _ text hread ih =>
    obtain ⟨name, body, hconstant, ⟨base, hmem⟩ | hfile⟩ := ih h
    · refine ⟨name, body, hconstant, ?_⟩
      rcases List.mem_append.1 hmem with hmem | hmem
      · obtain ⟨directive, hdirective, heq⟩ := List.mem_map.1 hmem
        cases heq
        exact .inr ⟨loc.toPath, text, hread, hdirective⟩
      · exact .inl ⟨base, List.mem_cons_of_mem _ hmem⟩
    · exact ⟨name, body, hconstant, .inr hfile⟩

/-- A scan that comes to its end met no definition that overflows. -/
theorem constant?_of_scanPending {unread : List Location} {scan result : HeaderScan}
    {pending : List Pending} (h : scanPending a fs directories unread scan pending = .ok result)
    {base : Option Path} {name : String} (hmem : ⟨base, .define name body⟩ ∈ pending) :
    ∃ literal, constant? a body = .ok literal := by
  fun_induction scanPending a fs directories unread scan pending with
  | case1 => cases hmem
  | case2 => cases h
  | case3 _ _ _ _ _ _ _ hdefine ih =>
    rcases List.mem_cons.1 hmem with heq | hmem
    · cases heq
      cases hconstant : constant? a body with
      | error o => cases hdefine.symm.trans (define_eq_error_iff.2 hconstant)
      | ok literal => exact ⟨literal, rfl⟩
    · exact ih h hmem
  | case4 _ _ _ _ _ _ _ ih | case8 _ _ _ _ _ _ _ _ _ _ _ ih =>
    rcases List.mem_cons.1 hmem with heq | hmem
    · cases heq
    · exact ih h hmem
  | case5 => cases h
  | case6 => cases h
  | case7 _ _ _ _ _ _ _ _ _ _ _ _ _ _ _ ih =>
    rcases List.mem_cons.1 hmem with heq | hmem
    · cases heq
    · exact ih h (List.mem_append_right _ hmem)

/-- Where the scan of a text overflows, that text or one that a file holds negates the least word. -/
theorem exists_negation_of_scanPending {unread : List Location} {scan : HeaderScan}
    {base : Option Path}
    (h : scanPending a fs directories unread scan (pendingOfText base source) =
      .error .overflow) :
    a = .checked ∧ ∃ text core, Negation text core Int64.minValue ∧
      (text = source ∨ ∃ file, fs.readText file = .ok text) := by
  obtain ⟨name, body, ⟨o, hconstant⟩, hplace⟩ := exists_overflow_of_scanPending h
  obtain ⟨hchecked, core, hbody⟩ := constant?_eq_error_iff.1 hconstant
  refine ⟨hchecked, ?_⟩
  obtain ⟨_, hmem⟩ | ⟨file, text, hread, hmem⟩ := hplace
  · obtain ⟨directive, hdirective, heq⟩ := List.mem_map.1 hmem
    cases heq
    exact ⟨source, core, ⟨name, body, hdirective, hbody⟩, .inl rfl⟩
  · exact ⟨text, core, ⟨name, body, hmem, hbody⟩, .inr ⟨file, hread⟩⟩

/-- Where a scan overflows there is a text that negates the least word: the one that the scan starts
with, or one that a file holds. -/
theorem exists_negation_of_scan {start : Start}
    (h : start.scan a fs directories = .error .overflow) :
    a = .checked ∧ ∃ text core, Negation text core Int64.minValue ∧
      ((∃ base, start = .text text base) ∨ ∃ file, fs.readText file = .ok text) := by
  cases start with
  | text source base =>
    obtain ⟨hchecked, text, core, hnegation, hplace⟩ := exists_negation_of_scanPending h
    refine ⟨hchecked, text, core, hnegation, hplace.imp_left ?_⟩
    rintro rfl
    exact ⟨base, rfl⟩
  | file path =>
    simp only [Start.scan, scanFile] at h
    split at h
    · cases h
    split at h
    · cases h
    next source hread =>
    obtain ⟨hchecked, text, core, hnegation, hplace⟩ := exists_negation_of_scanPending h
    refine ⟨hchecked, text, core, hnegation, .inr ?_⟩
    rcases hplace with rfl | hfile
    · exact ⟨_, hread⟩
    · exact hfile

/-- In checked arithmetic no scan of a text that negates the least word comes to its end. -/
theorem Negation.scanText_ne_ok (h : Negation source core Int64.minValue) (base : Option Path)
    (scan : HeaderScan) : scanText .checked fs directories source base ≠ .ok scan := by
  intro hscan
  obtain ⟨name, body, hmem, hbody⟩ := h
  obtain ⟨literal, hliteral⟩ := constant?_of_scanPending hscan (List.mem_map_of_mem hmem)
  have hoverflow := (constant?_eq_error_iff (o := ⟨⟩)).2 ⟨rfl, core, hbody⟩
  cases hliteral.symm.trans hoverflow

end Scan

end Header

/-- The negative of a word is a word, unless it is the least word. A text that is read as a script
negates no least word. Read as a header it negates that one in exactly one case: in a body with a
minus sign in front and a second one behind the mark of its base, with the digits of two to the
power of 63. That body has its negative as its constant in wrapping arithmetic, and in checked
arithmetic it overflows. A scan overflows only at such a body, and comes to its end with none of
them in its text. -/
theorem negation_overflows_iff (source : String) :
    (∀ w, Script.Negates .start source.toList w →
      (∃ q text rest, Script.lexeme q '-' text = .ok (.int (-w), rest)) ∧
      w ≠ Int64.minValue ∧ (-w).toInt = -w.toInt) ∧
    (∀ core w, Header.Negation source core w →
      (∃ name body, Header.Directive.define name body ∈ Header.Directive.ofText source ∧
        ∀ a, Header.constant? a body = (a.negate w).map fun v => some (.int v)) ∧
      (w ≠ Int64.minValue → (-w).toInt = -w.toInt) ∧
      (w = Int64.minValue ↔ Header.Written .minus (2 ^ 63) true core)) ∧
    (∀ core, Header.Negation source core Int64.minValue → ∀ fs directories base scan,
      Header.scanText .checked fs directories source base ≠ .ok scan) ∧
    ∀ a fs directories start, Header.Start.scan a fs directories start = .error .overflow →
      a = .checked ∧ ∃ text core, Header.Negation text core Int64.minValue ∧
        ((∃ base, start = .text text base) ∨ ∃ file, fs.readText file = .ok text) := by
  refine ⟨?_, ?_, ?_, ?_⟩
  · intro w h
    exact ⟨h.exists_token, h.ne_minValue, Header.toInt_neg_of_ne h.ne_minValue⟩
  · rintro core w ⟨name, body, hmem, hbody⟩
    exact ⟨⟨name, body, hmem, fun _ => hbody.constant?_eq⟩, Header.toInt_neg_of_ne,
      Header.negated_least_iff hbody.negated⟩
  · intro core h fs directories base scan
    exact h.scanText_ne_ok base scan
  · intro a fs directories start h
    exact Header.exists_negation_of_scan h

/-- The greatest word is negated in a script, and in a header behind a mark and in parentheses. -/
theorem greatest_word_negated :
    Script.Negates .start "return -9223372036854775807".toList Int64.maxValue ∧
      (-Int64.maxValue).toInt = -Int64.maxValue.toInt ∧
      Header.Negation "#define A (-0x7fffffffffffffff)\n" "-0x7fffffffffffffff".toList
        Int64.maxValue ∧
      Int64.maxValue ≠ Int64.minValue ∧
      ¬ Header.Written .minus (2 ^ 63) true "-0x7fffffffffffffff".toList := by
  have hscript : Script.Negates .start "return -9223372036854775807".toList Int64.maxValue := by
    apply Script.Negates.later (by rfl) (by rfl)
    exact Script.Negates.here (by rfl) (by decide) (by rfl)
  have hheader : Header.Negation "#define A (-0x7fffffffffffffff)\n"
      "-0x7fffffffffffffff".toList Int64.maxValue := by
    have hinner : Header.between? '(' ')' "(-0x7fffffffffffffff)".toList =
        some "-0x7fffffffffffffff".toList := by decide
    refine ⟨"A", _, by decide +kernel, .paren hinner (.core (by decide)), by decide, ?_⟩
    decide +kernel
  obtain ⟨_, hne, hneg⟩ := (negation_overflows_iff _).1 _ hscript
  obtain ⟨_, _, hleast⟩ := (negation_overflows_iff _).2.1 _ _ hheader
  exact ⟨hscript, hneg, hheader, hne, fun h => hne (hleast.2 h)⟩

/-- With a second minus sign behind the mark of base sixteen the least word is negated. In checked
arithmetic the scan overflows there; in wrapping arithmetic the negative is the least word itself. -/
theorem least_word_negated :
    Header.Negation "#define A -0x-8000000000000000\n" "-0x-8000000000000000".toList
        Int64.minValue ∧
      (-Int64.minValue).toInt ≠ -Int64.minValue.toInt ∧
      Header.scanText .checked .bare [] "#define A -0x-8000000000000000\n" none =
        .error .overflow ∧
      Header.scanText .wrapping .bare [] "#define A -0x-8000000000000000\n" none =
        .ok ⟨[("A", .int Int64.minValue)], []⟩ := by
  refine ⟨⟨"A", "-0x-8000000000000000".toList, by decide +kernel, .core (by decide), by decide,
    by decide +kernel⟩, by decide, by cbv, by cbv⟩

end ScriptBuild
