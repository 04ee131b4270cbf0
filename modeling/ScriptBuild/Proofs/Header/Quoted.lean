import ScriptBuild.FileSystem.Build
import ScriptBuild.Proofs.Header.Inlining
import ScriptBuild.Proofs.Header.Integer
import ScriptBuild.Proofs.Script.Layout

/-!
# String constants of a header

A definition by a string literal gives the name the text in the quotes, unless a comment seems to
start in it: comments are cut off before the quotes are looked at, and then the line is passed over.
Main statement: `string_line_scanned`. `isName_of_lines` says which characters are in the names of
constants, so that what is left of such a literal is never taken for one.
-/

namespace ScriptBuild.Header

open Text

/-- Somewhere in the text two characters stand that start a comment outside of a string. -/
def HoldsMark (t : List Char) : Prop :=
  ['/', '/'] <:+: t ∨ ['/', '*'] <:+: t

instance : DecidablePred HoldsMark :=
  fun t => inferInstanceAs (Decidable (['/', '/'] <:+: t ∨ ['/', '*'] <:+: t))

/-- Blanks, and perhaps a comment behind them. -/
inductive Trailing : List Char → Prop where
  | blanks {gap : List Char} (blanks : ∀ c ∈ gap, isBlank c = true) : Trailing gap
  | comment {gap text : List Char} {c : Char} (blanks : ∀ c ∈ gap, isBlank c = true)
      (mark : c = '/' ∨ c = '*') : Trailing (gap ++ '/' :: c :: text)

/-- The line that defines a name by what stands behind a space. -/
def defineLine (name rest : List Char) : List Char :=
  "#define ".toList ++ (name ++ ' ' :: rest)

/-- The line that defines a name by a text in quotes, with something behind it. -/
def stringLine (name t tail : List Char) : List Char :=
  defineLine name ('"' :: (t ++ '"' :: tail))

/-- The line defines a name as a string: there are no quotes but those around the text, and no more
behind them than blanks and a comment. -/
structure DefinesString (name t tail : List Char) : Prop where
  ne_nil : name ≠ []
  named : ∀ c ∈ name, isNameChar c = true
  unquoted : '"' ∉ t
  trailing : Trailing tail

section Comments

variable {c : Char} {as t tail : List Char}

/-- What is in front of a comment mark is all that may be left. -/
theorem beforeComment_append_isPrefix (mark : c = '/' ∨ c = '*') (as rest : List Char) :
    beforeComment (as ++ '/' :: c :: rest) <+: as := by
  induction as with
  | nil =>
    rcases mark with rfl | rfl <;> exact List.nil_prefix
  | cons a as ih =>
    rw [List.cons_append, beforeComment]
    split
    · exact List.nil_prefix
    · exact List.cons_prefix_cons.2 ⟨rfl, ih⟩

theorem beforeComment_of_holdsMark (h : HoldsMark t) (rest : List Char) :
    beforeComment (t ++ rest) <+: t := by
  have hcut : ∀ c as bs, c = '/' ∨ c = '*' → as ++ ['/', c] ++ bs = t →
      beforeComment (t ++ rest) <+: t := by
    rintro c as bs mark rfl
    have hprefix := beforeComment_append_isPrefix mark as (bs ++ rest)
    simp only [List.append_assoc, List.cons_append, List.nil_append]
    exact hprefix.trans (List.prefix_append _ _)
  obtain ⟨as, bs, hsplit⟩ | ⟨as, bs, hsplit⟩ := h
  · exact hcut '/' as bs (.inl rfl) hsplit
  · exact hcut '*' as bs (.inr rfl) hsplit

/-- Without a comment mark nothing is cut off. -/
theorem beforeComment_append (h : ¬ HoldsMark t) (rest : List Char) :
    beforeComment (t ++ '"' :: rest) = t ++ '"' :: beforeComment rest := by
  induction t with
  | nil => rfl
  | cons a t ih =>
    have hstart : (a = '/' && ((t ++ '"' :: rest).head? == some '/' ||
        (t ++ '"' :: rest).head? == some '*')) = false := by
      rw [← Bool.not_eq_true, Bool.and_eq_true, decide_eq_true_eq]
      rintro ⟨rfl, hsecond⟩
      cases t with
      | nil => cases hsecond
      | cons b t =>
        simp only [List.cons_append, List.head?_cons, Bool.or_eq_true, beq_iff_eq,
          Option.some_inj] at hsecond
        obtain rfl | rfl := hsecond
        · exact h (.inl ⟨[], t, rfl⟩)
        · exact h (.inr ⟨[], t, rfl⟩)
    have hrest : ¬ HoldsMark t := fun hmark => h (hmark.imp List.infix_cons List.infix_cons)
    rw [List.cons_append, beforeComment, hstart, ih hrest]
    rfl

theorem Trailing.beforeComment (h : Trailing tail) :
    ∀ c ∈ beforeComment tail, isBlank c = true := by
  cases h with
  | blanks blanks => exact fun c hc => blanks c ((beforeComment_isPrefix tail).subset hc)
  | comment blanks mark =>
    exact fun c hc => blanks c ((beforeComment_append_isPrefix mark _ _).subset hc)

end Comments

section Bodies

variable {a : Arithmetic} {t gap u : List Char}

theorem trimStart_quote (cs : List Char) : trimStart (' ' :: '"' :: cs) = '"' :: cs := by
  rw [trimStart, List.dropWhile_cons_of_pos (by decide), List.dropWhile_cons_of_neg (by decide)]

theorem trimEnd_append (blanks : ∀ c ∈ gap, isBlank c = true) (cs : List Char) :
    trimEnd (cs ++ gap) = trimEnd cs := by
  rw [trimEnd, List.reverse_append,
    List.dropWhile_append_of_pos fun c hc => blanks c (List.mem_reverse.1 hc), trimEnd]

/-- Blanks around a literal in quotes are cut off. -/
theorem trim_quoted (blanks : ∀ c ∈ gap, isBlank c = true) (t : List Char) :
    trim (' ' :: '"' :: (t ++ '"' :: gap)) = '"' :: (t ++ ['"']) := by
  have hstart : trimStart (' ' :: '"' :: (t ++ '"' :: gap)) = ('"' :: t) ++ ['"'] ++ gap := by
    rw [trimStart_quote]
    simp
  have hlast : trimEnd (('"' :: t) ++ ['"']) = ('"' :: t) ++ ['"'] :=
    List.rdropWhile_concat_neg isBlank _ _ (by decide)
  rw [trim, hstart, trimEnd_append blanks, hlast]
  rfl

/-- Of a literal whose second quote is cut off its first one is left. -/
theorem trim_half (u : List Char) : ∃ w, trim (' ' :: '"' :: u) = '"' :: w ∧ w <+: u := by
  rw [trim, trimStart_quote]
  have hprefix : trimEnd ('"' :: u) <+: '"' :: u := List.rdropWhile_prefix isBlank _
  cases hend : trimEnd ('"' :: u) with
  | nil =>
    have hblank := List.rdropWhile_eq_nil_iff.1 hend '"' List.mem_cons_self
    exact absurd hblank (by decide)
  | cons c w =>
    rw [hend] at hprefix
    obtain ⟨rfl, hw⟩ := List.cons_prefix_cons.1 hprefix
    exact ⟨w, rfl, hw⟩

theorem constant?_quoted (unquoted : '"' ∉ t) :
    constant? a ('"' :: (t ++ ['"'])) = .ok (some (.str (String.ofList t))) := by
  have hparen : between? '(' ')' ('"' :: (t ++ ['"'])) = none := by simp [between?]
  have hquote : between? '"' '"' ('"' :: (t ++ ['"'])) = some t := by simp [between?]
  rw [constant?]
  split
  · next inner h =>
    rw [hparen] at h
    cases h
  · simp [hquote, unquoted]

/-- No integer begins with a quote. -/
theorem integer?_quote (u : List Char) : integer? a ('"' :: u) = .ok none := by
  have hunwritten : ∀ sign n negative, ¬ Written sign n negative ('"' :: u) := by
    intro sign n negative hwritten
    generalize hbody : '"' :: u = body at hwritten
    cases hwritten with
    | plain number =>
      obtain ⟨d, more, rfl, hlow, _⟩ := number.starts
      rw [← (List.cons.inj hbody).1] at hlow
      exact absurd hlow (by decide)
    | negated => cases hbody
  cases hint : integer? a ('"' :: u) with
  | error o => exact absurd (integer?_eq_error_iff.1 hint).2 (hunwritten _ _ _)
  | ok found =>
    cases found with
    | none => rfl
    | some v =>
      obtain ⟨sign, n, negative, _, hwritten, _⟩ := exists_written hint
      exact absurd hwritten (hunwritten _ _ _)

/-- A quote in front of a text without one begins no constant. -/
theorem constant?_half (unquoted : '"' ∉ u) : constant? a ('"' :: u) = .ok none := by
  have hparen : between? '(' ')' ('"' :: u) = none := by simp [between?]
  have hquote : between? '"' '"' ('"' :: u) = none := by
    have hlast : u.getLast? ≠ some '"' := fun h => unquoted (List.mem_of_getLast? h)
    simp [between?, hlast]
  rw [constant?_of_bare hparen hquote, integer?_quote]
  rfl

end Bodies

section Lines

variable {name t tail : List Char}

theorem isNameChar_of_isBlank {c : Char} (h : isBlank c = true) : isNameChar c = false :=
  Script.isWordChar_of_isBlank h

/-- A line that defines a name by a body without parameters. -/
theorem ofLine?_define {rest : List Char} (hne : name ≠ []) (named : ∀ c ∈ name, isNameChar c = true) :
    Directive.ofLine? (defineLine name rest) =
      some (.define (String.ofList name) (trim (beforeComment (' ' :: rest)))) := by
  obtain ⟨c, cs, rfl⟩ := List.exists_cons_of_ne_nil hne
  have hname : isNameChar c = true := named c List.mem_cons_self
  have hblank : ¬ isBlank c = true := by
    intro hblank
    rw [isNameChar_of_isBlank hblank] at hname
    cases hname
  have hstart : trimStart (' ' :: ((c :: cs) ++ ' ' :: rest)) = (c :: cs) ++ ' ' :: rest := by
    rw [trimStart, List.dropWhile_cons_of_pos (by decide), List.cons_append,
      List.dropWhile_cons_of_neg hblank]
  have hline : Directive.ofLine? (defineLine (c :: cs) rest) =
      defineOf? (trimStart (' ' :: ((c :: cs) ++ ' ' :: rest))) := by
    rfl
  have hends : ∀ d ∈ (' ' :: rest).head?, isNameChar d = false := by
    intro d hd
    cases hd
    decide
  obtain ⟨htake, hdrop⟩ := Script.takeWhile_append_of_head named hends
  rw [hline, hstart, defineOf?]
  simp only [htake, hdrop]
  rfl

/-- The definition on the line: all of the text in quotes, or a part of it behind the first quote. -/
theorem DefinesString.definition? (h : DefinesString name t tail) :
    (¬ HoldsMark t → definition? (stringLine name t tail) =
      some (String.ofList name, '"' :: (t ++ ['"']))) ∧
    (HoldsMark t → ∃ u, u <+: t ∧ definition? (stringLine name t tail) =
      some (String.ofList name, '"' :: u)) := by
  have hread : Directive.ofLine? (stringLine name t tail) = _ := ofLine?_define h.ne_nil h.named
  have hbefore : beforeComment (' ' :: '"' :: (t ++ '"' :: tail)) =
      ' ' :: '"' :: beforeComment (t ++ '"' :: tail) := by
    simp [beforeComment]
  rw [hbefore] at hread
  rw [Header.definition?, hread]
  constructor
  · intro hmark
    rw [beforeComment_append hmark, trim_quoted h.trailing.beforeComment]
  · intro hmark
    obtain ⟨w, htrim, hw⟩ := trim_half (beforeComment (t ++ '"' :: tail))
    rw [htrim]
    exact ⟨w, hw.trans (beforeComment_of_holdsMark hmark _), rfl⟩

end Lines

section Names

/-- All characters of the name may stand in one. -/
def IsName (name : String) : Prop :=
  ∀ c ∈ name.toList, isNameChar c = true

theorem isName_of_defineOf? {rest body : List Char} {name : String}
    (h : defineOf? rest = some (.define name body)) : IsName name := by
  simp only [defineOf?] at h
  split at h
  · cases h
  · cases h
    intro c hc
    rw [String.toList_ofList] at hc
    exact List.mem_takeWhile_imp hc

theorem includeOf?_ne_define (target : List Char) (name : String) (body : List Char) :
    includeOf? target ≠ some (.define name body) := by
  unfold includeOf?
  split <;> simp

theorem isName_of_definition? {line : List Char} {d : Definition} (h : definition? line = some d) :
    IsName d.1 := by
  unfold definition? at h
  split at h
  · next name body hline =>
    cases h
    obtain ⟨rest, _, hrest⟩ := Option.bind_eq_some_iff.1 hline
    dsimp only at hrest
    split at hrest
    · exact absurd hrest (includeOf?_ne_define _ name body)
    · obtain ⟨body', _, hbody⟩ := Option.bind_eq_some_iff.1 hrest
      obtain ⟨_, _, hdefine⟩ := Option.bind_eq_some_iff.1 hbody
      exact isName_of_defineOf? hdefine
  · cases h

theorem isName_of_constantsOf {ds : List Definition} (h : ∀ d ∈ ds, IsName d.1) :
    ∀ x ∈ constantsOf ds, IsName x.1 := by
  induction ds using List.reverseRecOn with
  | nil => exact fun x hx => absurd hx List.not_mem_nil
  | append_singleton ds d ih =>
    obtain ⟨hds, hd⟩ := List.forall_mem_append.1 h
    intro x hx
    rw [constantsOf_concat, withDefinition, HeaderScan.defineAs] at hx
    split at hx
    · obtain rfl | hx := Fields.mem_insert hx
      · exact hd d (List.mem_singleton_self d)
      · exact ih hds x hx
    · exact ih hds x hx

/-- All names that lines give to constants are made of the characters of names. -/
theorem isName_of_lines (before : List (List Char)) :
    ∀ x ∈ constantsOf (before.filterMap definition?), IsName x.1 := by
  apply isName_of_constantsOf
  intro d hd
  obtain ⟨line, _, hline⟩ := List.mem_filterMap.1 hd
  exact isName_of_definition? hline

/-- No line gives a name to a constant that a quote could stand in. -/
theorem get?_half {before : List (List Char)} (u : List Char) :
    Fields.get? (constantsOf (before.filterMap definition?)) (String.ofList ('"' :: u)) = none := by
  rw [Fields.get?, List.lookup_eq_none_iff]
  intro x hx
  have hquote : '"' ∉ x.1.toList := fun hmem =>
    absurd (isName_of_lines before x hx '"' hmem) (by decide)
  rw [bne_iff_ne]
  intro hkey
  rw [← hkey, String.toList_ofList] at hquote
  exact hquote List.mem_cons_self

end Names

section Scan

variable {a : Arithmetic} {fs : FileSystem} {directories : List Path} {unread : List Location}
  {scan defined : HeaderScan} {base : Option Path} {ls : List (List Char)} {more : List Pending}

theorem scanPending_definition {line body : List Char} {name : String}
    (h : definition? line = some (name, body)) (hdefine : scan.define a name body = .ok defined) :
    scanPending a fs directories unread scan (pendingOfLines base (line :: ls) ++ more) =
      scanPending a fs directories unread defined (pendingOfLines base ls ++ more) := by
  have hline : Directive.ofLine? line = some (.define name body) := by
    unfold definition? at h
    split at h
    · next hline =>
      cases h
      exact hline
    · cases h
  rw [pendingOfLines, List.filterMap_cons_some hline, List.map_cons, List.cons_append, scanPending,
    hdefine]
  rfl

end Scan

/-- The line that defines a name as a string sets the name to the text in the quotes, whatever is
known and still to be read, if no two characters in it start a comment outside of strings. If they
do, the line is passed over: the name keeps the constant that earlier lines gave it, or has none. -/
theorem string_line_scanned {name t tail : List Char} (h : DefinesString name t tail)
    (a : Arithmetic) (fs : FileSystem) (directories : List Path) (unread : List Location)
    (scan : HeaderScan) (base : Option Path) (ls : List (List Char)) (more : List Pending) :
    let reading := fun s ls => scanPending a fs directories unread s (pendingOfLines base ls ++ more)
    (¬ HoldsMark t → reading scan (stringLine name t tail :: ls) =
      reading { scan with
        constants := Fields.insert (String.ofList name) (.str (String.ofList t)) scan.constants } ls) ∧
    (HoldsMark t → ∀ before : List (List Char), scan.constants = constantsOf (before.filterMap definition?) →
      reading scan (stringLine name t tail :: ls) = reading scan ls) := by
  intro reading
  obtain ⟨hplain, hcut⟩ := h.definition?
  constructor
  · intro hmark
    have hdefine : scan.define a (String.ofList name) ('"' :: (t ++ ['"'])) = .ok { scan with
        constants := Fields.insert (String.ofList name) (.str (String.ofList t)) scan.constants } := by
      rw [HeaderScan.define, constant?_quoted h.unquoted]
      rfl
    exact scanPending_definition (hplain hmark) hdefine
  · intro hmark before hbefore
    obtain ⟨u, hu, hdefinition⟩ := hcut hmark
    have hconstant : constant? a ('"' :: u) = .ok none :=
      constant?_half fun hmem => h.unquoted (hu.subset hmem)
    have hdefine : scan.define a (String.ofList name) ('"' :: u) = .ok scan :=
      define_of_none hconstant (hbefore ▸ get?_half u) _
    exact scanPending_definition hdefinition hdefine

/-- A text with one slash is read whole, and the comment behind it is passed over. -/
theorem path_constant_read :
    DefinesString "DIR".toList "a/b *".toList " // \"c\"".toList ∧ ¬ HoldsMark "a/b *".toList ∧
      scanText .checked .bare [] "#define DIR \"a/b *\" // \"c\"\n" none =
        .ok ⟨[("DIR", .str "a/b *")], []⟩ := by
  have htrailing : Trailing ([' '] ++ '/' :: '/' :: " \"c\"".toList) :=
    .comment (List.all_eq_true.1 (by decide)) (.inl rfl)
  have hdefines : DefinesString "DIR".toList "a/b *".toList " // \"c\"".toList :=
    ⟨by decide, List.all_eq_true.1 (by decide), by decide, htrailing⟩
  have hmark : ¬ HoldsMark "a/b *".toList := by decide
  have hread := (string_line_scanned hdefines .checked .bare [] FileSystem.bare.regularFiles
    ⟨[], []⟩ none [] []).1 hmark
  have hend : scanPending .checked .bare [] FileSystem.bare.regularFiles
      ⟨[("DIR", .str "a/b *")], []⟩ [] = .ok ⟨[("DIR", .str "a/b *")], []⟩ := by
    rw [scanPending]
  exact ⟨hdefines, hmark, hread.trans hend⟩

/-- A text with two slashes in a row is no constant. -/
theorem address_passed_over :
    DefinesString "URL".toList "http://x".toList [] ∧
      scanText .checked .bare [] "#define URL \"http://x\"\n" none = .ok ⟨[], []⟩ ∧
      scanText .checked .bare [] "#define URL \"http://x\"\n" none ≠
        .ok ⟨[("URL", .str "http://x")], []⟩ := by
  have hscan : scanText .checked .bare [] "#define URL \"http://x\"\n" none = .ok ⟨[], []⟩ := by
    cbv
  have htrailing : Trailing [] := .blanks (List.forall_mem_nil _)
  refine ⟨⟨by decide, List.all_eq_true.1 (by decide), by decide, htrailing⟩, hscan, ?_⟩
  rw [hscan]
  intro h
  cases h

end ScriptBuild.Header
