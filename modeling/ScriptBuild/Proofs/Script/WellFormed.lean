import ScriptBuild.Proofs.Script.Returns
import ScriptBuild.Proofs.Script.Spelling

/-!
# What the parser returns

Every script that is read has well-formed statements: names are identifiers and no keywords, integers
are such as can be written, an expression that stands alone is a call or a field of what one gives,
and a `return` comes last. Main statement: `wellFormed_of_ofText`, put together of one lemma on each
reader, which says what it returns and that it leaves tokens of the same kind.
-/

namespace ScriptBuild.Script

/-- The word is an identifier and no keyword. -/
def isName (word : String) : Bool :=
  isIdentifier word.toList && ! isKeyword word

/-- An expression that a script can have. Texts and specifiers may be any; a call is one of a function
that there is. -/
inductive Expr.WellFormed : Expr → Prop where
  | nil : WellFormed .nil
  | bool (b : Bool) : WellFormed (.bool b)
  | int {n : Int64} (fits : n ≠ Int64.minValue) : WellFormed (.int n)
  | str (s : String) : WellFormed (.str s)
  | name {x : String} (named : isName x = true) : WellFormed (.name x)
  | field {e : Expr} {x : String} (target : e.WellFormed) (named : isName x = true) :
      WellFormed (.field e x)
  | table {fields : List (String × Expr)} (keys : ∀ f ∈ fields, isName f.1 = true)
      (values : ∀ f ∈ fields, f.2.WellFormed) : WellFormed (.table fields)
  | require (specifier : String) : WellFormed (.require specifier)
  | call {function : String} {es : List Expr} (known : (Builtin.ofName? function).isSome = true)
      (arguments : ∀ e ∈ es, e.WellFormed) : WellFormed (.call function es)

/-- An expression that can stand alone: a chain of field accesses on a `require` or a call. -/
inductive Expr.StandsAlone : Expr → Prop where
  | require (specifier : String) : StandsAlone (.require specifier)
  | call (function : String) (arguments : List Expr) : StandsAlone (.call function arguments)
  | field {e : Expr} (target : e.StandsAlone) (x : String) : StandsAlone (.field e x)

/-- An action that a script can have. -/
inductive Action.WellFormed : Action → Prop where
  | «local» {x : String} {e : Expr} (named : isName x = true) (value : e.WellFormed) :
      WellFormed (.local x e)
  | «export» {x : String} {e : Expr} (named : isName x = true) (value : e.WellFormed) :
      WellFormed (.export x e)
  | link {e : Expr} (value : e.WellFormed) : WellFormed (.link e)
  | evaluate {e : Expr} (value : e.WellFormed) (alone : e.StandsAlone) : WellFormed (.evaluate e)
  | «return» {e : Expr} (value : e.WellFormed) : WellFormed (.return e)

mutual

/-- The names that an expression calls without there being such a function. -/
def Expr.unknown : Expr → List String
  | .field target _ => target.unknown
  | .table fields => fieldsUnknown fields
  | .call name arguments =>
    (if (Builtin.ofName? name).isSome then [] else [name]) ++ argumentsUnknown arguments
  | _ => []

/-- The same of the values of table fields. -/
def fieldsUnknown : List (String × Expr) → List String
  | [] => []
  | (_, e) :: fields => e.unknown ++ fieldsUnknown fields

/-- The same of the arguments of a call. -/
def argumentsUnknown : List Expr → List String
  | [] => []
  | e :: arguments => e.unknown ++ argumentsUnknown arguments

end

/-- The same of a statement. -/
def Statement.unknown (s : Statement) : List String :=
  s.action.expr.unknown

theorem fieldsUnknown_eq_nil {fields : List (String × Expr)}
    (h : ∀ f ∈ fields, f.2.unknown = []) : fieldsUnknown fields = [] := by
  induction fields with
  | nil => rfl
  | cons f fields ih =>
    obtain ⟨hf, hfields⟩ := List.forall_mem_cons.1 h
    rw [fieldsUnknown, hf, ih hfields, List.nil_append]

theorem argumentsUnknown_eq_nil {arguments : List Expr} (h : ∀ e ∈ arguments, e.unknown = []) :
    argumentsUnknown arguments = [] := by
  induction arguments with
  | nil => rfl
  | cons e arguments ih =>
    obtain ⟨he, harguments⟩ := List.forall_mem_cons.1 h
    rw [argumentsUnknown, he, ih harguments, List.nil_append]

/-- An expression that a script can have calls nothing but functions that there are. -/
theorem Expr.WellFormed.unknown_eq_nil {e : Expr} (h : e.WellFormed) : e.unknown = [] := by
  induction h with
  | nil | bool | int | str | name | require => rfl
  | field _ _ ih => exact ih
  | table _ _ ih => exact fieldsUnknown_eq_nil ih
  | call known _ ih =>
    rw [Expr.unknown, if_pos known, List.nil_append]
    exact argumentsUnknown_eq_nil ih

theorem Action.WellFormed.expr {a : Action} (h : a.WellFormed) : a.expr.WellFormed := by
  cases h <;> assumption

/-- Actions that a script can consist of: only the last may be a `return`. -/
structure WellFormed (actions : List Action) : Prop where
  each : ∀ a ∈ actions, a.WellFormed
  last : ∀ a ∈ actions.dropLast, a.isReturn = false

/-- A text can have the tokens. -/
def Legible (ts : List Placed) : Prop :=
  ∀ t ∈ ts, t.token.Legible

/-- If the reader succeeds, then with such a value, and it leaves tokens that a text can have. -/
def Yields {α : Type} {ts : List Placed} (P : α → Prop) (x : Except SyntaxError (Parsed α ts)) :
    Prop :=
  ∀ r, x = .ok r → P r.value ∧ Legible r.rest

namespace Yields

variable {α β : Type} {ts us : List Placed} {P : α → Prop} {Q : β → Prop}

theorem error (fault : SyntaxError) : Yields P (.error fault : Except SyntaxError (Parsed α ts)) := by
  intro r h
  cases h

theorem map {x : Except SyntaxError (Parsed α ts)} (h : Yields P x) {f : Parsed α ts → Parsed β us}
    (hf : ∀ r, P r.value → Q (f r).value ∧ (f r).rest = r.rest) : Yields Q (x.map f) := by
  intro r hr
  obtain ⟨r', hr', rfl⟩ := map_eq_ok_iff.1 hr
  obtain ⟨hvalue, hrest⟩ := h r' hr'
  obtain ⟨hvalue', hsame⟩ := hf r' hvalue
  exact ⟨hvalue', hsame ▸ hrest⟩

end Yields

section Readers

variable {finish : Position} {m : Mark} {what : Expectation} {t : Placed} {ts : List Placed}

theorem Legible.tail (h : Legible (t :: ts)) : Legible ts :=
  fun u hu => h u (List.mem_cons_of_mem _ hu)

theorem legible_of_takeMark? {r : Parsed Unit ts} (hts : Legible ts) (h : takeMark? m ts = some r) :
    Legible r.rest := by
  cases ts with
  | nil => cases h
  | cons t ts =>
    rw [takeMark?] at h
    split at h
    · cases h
      exact hts.tail
    · cases h

theorem yields_takeMark (hts : Legible ts) :
    Yields (fun _ => True) (takeMark finish m what ts) := by
  intro r h
  unfold takeMark at h
  split at h
  · next htake =>
    cases h
    exact ⟨trivial, legible_of_takeMark? hts htake⟩
  · cases h

theorem yields_takeName (hts : Legible ts) :
    Yields (fun x => isName x = true) (takeName finish ts) := by
  intro r h
  unfold takeName at h
  split at h
  · next w p rest =>
    split at h
    · cases h
    · next hkeyword =>
      cases h
      have hword : isIdentifier w.toList = true := hts ⟨.word w, p⟩ List.mem_cons_self
      refine ⟨?_, hts.tail⟩
      show isName w = true
      rw [isName, hword, Bool.true_and]
      simpa using hkeyword
  · cases h

/-- Field accesses keep what is kept by one. -/
theorem yields_takeFields {P : Expr → Prop}
    (field : ∀ {e x}, P e → isName x = true → P (.field e x)) {e : Expr} (he : P e)
    (hts : Legible ts) {r : { r : Expr × List Placed // r.2.length ≤ ts.length }}
    (h : takeFields finish e ts = .ok r) : P r.1.1 ∧ Legible r.1.2 := by
  fun_induction takeFields finish e ts with
  | case1 =>
    cases h
    exact ⟨he, hts⟩
  | case2 => cases h
  | case3 => cases h
  | case4 e t rest hdot name rest' hshorter hname r' hr' hrest ih =>
    cases h
    obtain ⟨hvalue, hlegible⟩ := yields_takeName hts.tail _ hname
    exact ih (field he hvalue) hlegible hrest
  | case5 =>
    cases h
    exact ⟨he, hts⟩

section Expressions

variable {n : Nat} {expr : ExprReader n}
  (hexpr : ∀ ts below, Legible ts → Yields Expr.WellFormed (expr ts below))
include hexpr

theorem yields_parseItems (below : ts.length < n) (hts : Legible ts) :
    Yields (fun es => ∀ e ∈ es, e.WellFormed) (parseItems finish expr ts below) := by
  intro r h
  fun_induction parseItems finish expr ts below with
  | case1 ts below _ rest hrest htake =>
    cases h
    exact ⟨fun e he => absurd he List.not_mem_nil, legible_of_takeMark? hts htake⟩
  | case2 => cases h
  | case3 => cases h
  | case4 ts below hclose e rest hrest hread _ rest₁ h₁ hcomma items rest₂ h₂ hitems ih =>
    cases h
    obtain ⟨he, hlegible⟩ := hexpr ts below hts _ hread
    obtain ⟨hes, hlegible⟩ := ih (legible_of_takeMark? hlegible hcomma) _ hitems
    exact ⟨List.forall_mem_cons.2 ⟨he, hes⟩, hlegible⟩
  | case5 => cases h
  | case6 ts below hclose e rest hrest hread hcomma _ rest₁ h₁ htake =>
    cases h
    obtain ⟨he, hlegible⟩ := hexpr ts below hts _ hread
    exact ⟨List.forall_mem_singleton.2 he, (yields_takeMark hlegible _ htake).2⟩

theorem yields_parseFields (below : ts.length < n) (hts : Legible ts) :
    Yields (fun fields => ∀ f ∈ fields, isName f.1 = true ∧ f.2.WellFormed)
      (parseFields finish expr ts below) := by
  intro r h
  fun_induction parseFields finish expr ts below with
  | case1 ts below _ rest hrest htake =>
    cases h
    exact ⟨fun e he => absurd he List.not_mem_nil, legible_of_takeMark? hts htake⟩
  | case2 => cases h
  | case3 => cases h
  | case4 => cases h
  | case5 => cases h
  | case6 ts below hclose key rest hrest hname _ rest₁ h₁ hequals e rest₂ h₂ hread _ rest₃ h₃ hsep
      fields rest₄ h₄ hfields ih =>
    cases h
    obtain ⟨hkey, hlegible⟩ := yields_takeName hts _ hname
    obtain ⟨_, hlegible⟩ := yields_takeMark hlegible _ hequals
    obtain ⟨he, hlegible⟩ := hexpr rest₁ _ hlegible _ hread
    have hlegible : Legible rest₃ := by
      rcases Option.or_eq_some_iff.1 hsep with hcomma | ⟨_, hsemicolon⟩
      · exact legible_of_takeMark? hlegible hcomma
      · exact legible_of_takeMark? hlegible hsemicolon
    obtain ⟨hmore, hlegible⟩ := ih hlegible _ hfields
    exact ⟨List.forall_mem_cons.2 ⟨⟨hkey, he⟩, hmore⟩, hlegible⟩
  | case7 => cases h
  | case8 ts below hclose key rest hrest hname _ rest₁ h₁ hequals e rest₂ h₂ hread hsep _ rest₃ h₃
      htake =>
    cases h
    obtain ⟨hkey, hlegible⟩ := yields_takeName hts _ hname
    obtain ⟨_, hlegible⟩ := yields_takeMark hlegible _ hequals
    obtain ⟨he, hlegible⟩ := hexpr rest₁ _ hlegible _ hread
    exact ⟨List.forall_mem_singleton.2 ⟨hkey, he⟩, (yields_takeMark hlegible _ htake).2⟩

theorem yields_parseClosed (below : ts.length < n) (hts : Legible ts) :
    Yields Expr.WellFormed (parseClosed finish expr ts below) := by
  intro r h
  unfold parseClosed at h
  split at h
  · cases h
  · next hread =>
    obtain ⟨he, hlegible⟩ := hexpr ts below hts _ hread
    split at h
    · cases h
    · next htake =>
      cases h
      exact ⟨he, (yields_takeMark hlegible _ htake).2⟩

theorem yields_parseArgument (below : ts.length < n) (hts : Legible ts) :
    Yields Expr.WellFormed (parseArgument finish expr ts below) := by
  unfold parseArgument
  split
  · next hopen =>
    exact (yields_parseClosed hexpr _ (legible_of_takeMark? hts hopen)).map
      fun r hr => ⟨hr, rfl⟩
  · exact hexpr ts below hts

theorem yields_parseArguments (below : ts.length < n) (hts : Legible ts) :
    Yields (fun es => ∀ e ∈ es, e.WellFormed) (parseArguments finish expr ts below) := by
  unfold parseArguments
  split
  · next hopen =>
    exact (yields_parseItems hexpr _ (legible_of_takeMark? hts hopen)).map
      fun r hr => ⟨hr, rfl⟩
  · exact (hexpr ts below hts).map fun r hr => ⟨List.forall_mem_singleton.2 hr, rfl⟩

end Expressions

theorem yields_parsePrimary {expr : ExprReader ts.length}
    (hexpr : ∀ us below, Legible us → Yields Expr.WellFormed (expr us below)) (hts : Legible ts) :
    Yields Expr.WellFormed (parsePrimary finish ts expr) := by
  cases ts with
  | nil => exact .error _
  | cons t rest =>
    obtain ⟨token, p⟩ := t
    have hfirst := hts ⟨token, p⟩ List.mem_cons_self
    have ready : ∀ {e : Expr}, e.WellFormed → Yields Expr.WellFormed
        (.ok ⟨e, rest, Nat.lt_succ_self _⟩ :
          Except SyntaxError (Parsed Expr (⟨token, p⟩ :: rest))) := by
      intro e he r h
      cases h
      exact ⟨he, hts.tail⟩
    cases token with
    | int n => exact ready (.int hfirst)
    | str s => exact ready (.str s)
    | mark m =>
      cases m with
      | openBrace =>
        exact (yields_parseFields hexpr _ hts.tail).map fun r hr =>
          ⟨.table (fun f hf => (hr f hf).1) fun f hf => (hr f hf).2, rfl⟩
      | openParen => exact (yields_parseClosed hexpr _ hts.tail).map fun r hr => ⟨hr, rfl⟩
      | _ => exact .error _
    | word w =>
      unfold parsePrimary
      dsimp only
      split
      · exact ready .nil
      split
      · exact ready (.bool _)
      split
      · exact ready (.bool _)
      split
      · split
        · exact .error _
        · next hread =>
          intro r h
          cases h
          exact ⟨.require _, (yields_parseArgument hexpr _ hts.tail _ hread).2⟩
        · exact .error _
      split
      · next hknown =>
        exact (yields_parseArguments hexpr _ hts.tail).map fun r hr => ⟨.call hknown hr, rfl⟩
      · split
        · exact .error _
        · next hkeyword =>
          refine ready (.name ?_)
          rw [isName, show isIdentifier w.toList = true from hfirst, Bool.true_and]
          simpa using hkeyword

theorem yields_parseExpr (finish : Position) (ts : List Placed) (hts : Legible ts) :
    Yields Expr.WellFormed (parseExpr finish ts) := by
  induction hn : ts.length using Nat.strongRecOn generalizing ts with
  | _ n ih =>
    intro r h
    rw [parseExpr] at h
    split at h
    · cases h
    · next e rest hshorter hprimary =>
      obtain ⟨he, hlegible⟩ := yields_parsePrimary
        (fun us below hus => ih us.length (hn ▸ below) us hus rfl) hts _ hprimary
      split at h
      · cases h
      · next hfields =>
        cases h
        exact yields_takeFields .field he hlegible hfields

/-- What begins with `require` or the name of a function is a call. -/
theorem standsAlone_of_parsePrimary {expr : ExprReader (t :: ts).length} {w : String}
    (htoken : t.token = .word w) (hword : (w = "require" || (Builtin.ofName? w).isSome) = true)
    {r : Parsed Expr (t :: ts)} (h : parsePrimary finish (t :: ts) expr = .ok r) :
    r.value.StandsAlone := by
  have hliteral : w ≠ "nil" ∧ w ≠ "true" ∧ w ≠ "false" := by
    refine ⟨?_, ?_, ?_⟩ <;> rintro rfl <;> exact absurd hword (by decide)
  unfold parsePrimary at h
  simp only [htoken, if_neg hliteral.1, if_neg hliteral.2.1, if_neg hliteral.2.2] at h
  split at h
  · split at h
    · cases h
    · cases h
      exact .require _
    · cases h
  · next hrequire =>
    split at h
    · obtain ⟨r', _, rfl⟩ := map_eq_ok_iff.1 h
      exact .call _ _
    · next hunknown =>
      rw [Bool.not_eq_true] at hunknown
      rw [hunknown, decide_eq_false hrequire] at hword
      cases hword

theorem standsAlone_of_parseExpr {w : String} (htoken : t.token = .word w)
    (hword : (w = "require" || (Builtin.ofName? w).isSome) = true) (hts : Legible (t :: ts))
    {r : Parsed Expr (t :: ts)} (h : parseExpr finish (t :: ts) = .ok r) :
    r.value.StandsAlone := by
  rw [parseExpr] at h
  split at h
  · cases h
  · next hprimary =>
    have hlegible := (yields_parsePrimary (fun us _ => yields_parseExpr finish us) hts _ hprimary).2
    split at h
    · cases h
    · next hfields =>
      cases h
      have alone := standsAlone_of_parsePrimary htoken hword hprimary
      exact (yields_takeFields (fun he _ => .field he _) alone hlegible hfields).1

theorem yields_parseBinding (hts : Legible ts) :
    Yields (fun b => isName b.1 = true ∧ b.2.WellFormed) (parseBinding finish ts) := by
  intro r h
  unfold parseBinding at h
  split at h
  · cases h
  · next hname =>
    obtain ⟨hx, hlegible⟩ := yields_takeName hts _ hname
    split at h
    · cases h
    · next hequals =>
      obtain ⟨_, hlegible⟩ := yields_takeMark hlegible _ hequals
      split at h
      · cases h
      · next hread =>
        cases h
        obtain ⟨he, hlegible⟩ := yields_parseExpr finish _ hlegible _ hread
        exact ⟨⟨hx, he⟩, hlegible⟩

theorem yields_parseReturn (hts : Legible ts) :
    Yields Action.WellFormed (parseReturn finish t ts) := by
  unfold parseReturn
  split
  · intro r h
    cases h
    exact ⟨.return .nil, hts⟩
  · exact (yields_parseExpr finish ts hts).map fun r hr => ⟨.return hr, rfl⟩

theorem yields_parseAction (hts : Legible ts) :
    Yields Action.WellFormed (parseAction finish ts) := by
  cases ts with
  | nil => exact .error _
  | cons t rest =>
    unfold parseAction
    dsimp only
    split
    · next w htoken =>
      split
      · exact (yields_parseBinding hts.tail).map fun r hr => ⟨.local hr.1 hr.2, rfl⟩
      split
      · exact (yields_parseBinding hts.tail).map fun r hr => ⟨.export hr.1 hr.2, rfl⟩
      split
      · exact (yields_parseArgument (fun us _ => yields_parseExpr finish us) _ hts.tail).map
          fun r hr => ⟨.link hr, rfl⟩
      split
      · exact yields_parseReturn hts.tail
      split
      · next hword =>
        intro r h
        obtain ⟨r', hread, rfl⟩ := map_eq_ok_iff.1 h
        obtain ⟨he, hlegible⟩ := yields_parseExpr finish _ hts _ hread
        exact ⟨.evaluate he (standsAlone_of_parseExpr htoken hword hts hread), hlegible⟩
      · exact .error _
    · exact .error _

theorem wellFormed_of_parseStatements {returned : Bool} {statements : List Statement}
    (hts : Legible ts) (h : parseStatements finish returned ts = .ok statements) :
    ∀ s ∈ statements, s.action.WellFormed := by
  fun_induction parseStatements finish returned ts generalizing statements with
  | case1 =>
    cases h
    exact fun s hs => absurd hs List.not_mem_nil
  | case2 returned t rest hsemicolon ih => exact ih hts.tail h
  | case3 => cases h
  | case4 => cases h
  | case5 returned t rest hmark hreturned action rest' below hparse ih =>
    obtain ⟨more, hmore, rfl⟩ := map_eq_ok_iff.1 h
    obtain ⟨haction, hlegible⟩ := yields_parseAction hts _ hparse
    exact List.forall_mem_cons.2 ⟨haction, ih hlegible hmore⟩

end Readers

theorem ReturnsLast.isReturn_eq_false {statements : List Statement} (h : ReturnsLast statements) :
    ∀ a ∈ (statements.map (·.action)).dropLast, a.isReturn = false := by
  induction h with
  | nil => exact fun a ha => absurd ha List.not_mem_nil
  | @cons s more last _ ih =>
    cases more with
    | nil => exact fun a ha => absurd ha List.not_mem_nil
    | cons s' more =>
      refine List.forall_mem_cons.2 ⟨?_, ih⟩
      rw [← Bool.not_eq_true]
      exact fun hreturn => absurd (last hreturn) (List.cons_ne_nil _ _)

/-- Every script that is read consists of actions that a script can consist of. -/
theorem wellFormed_of_ofText {source : String} {origin : Option Path} {c : Chunk}
    (h : Chunk.ofText source origin = .ok c) : WellFormed (c.statements.map (·.action)) := by
  refine ⟨?_, (returnsLast_of_ofText h).isReturn_eq_false⟩
  obtain ⟨tokens, statements, htokens, hstatements, rfl⟩ := ofText_eq_ok.1 h
  exact List.forall_mem_map.2
    (wellFormed_of_parseStatements (legible_of_tokensFrom htokens) hstatements)

/-- No statement of a script that is read calls a function that there is not. -/
theorem unknown_of_ofText {source : String} {origin : Option Path} {c : Chunk}
    (h : Chunk.ofText source origin = .ok c) {s : Statement} (hs : s ∈ c.statements) :
    s.unknown = [] := by
  have haction : s.action.WellFormed := (wellFormed_of_ofText h).each _ (List.mem_map_of_mem hs)
  exact haction.expr.unknown_eq_nil

end ScriptBuild.Script
