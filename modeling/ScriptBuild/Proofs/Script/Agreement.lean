import ScriptBuild.Proofs.Script.Cursor

/-!
# The cursor and the descent

The readers with a cursor read what the descent on the token list reads, each from every place of
the tokens. Main statement: `agrees_script`, by which the count of rounds never runs out and the
cursor never looks behind the end, as the descent knows neither.
-/

namespace ScriptBuild.Script.Cursor

variable {α β : Type} {tokens : Tokens} {ts rest : List Placed} {t : Placed} {pos next n : Nat}

section Steps

variable {x : Reader α} {f : α → Reader β} {a : α} {e : Halt}

theorem bind_ok (h : x pos = .ok (a, next)) : (x >>= f) pos = f a next := by
  show (x pos).bind _ = _
  rw [h]
  rfl

theorem bind_error (h : x pos = .error e) : (x >>= f) pos = .error e := by
  show (x pos).bind _ = _
  rw [h]
  rfl

variable {round : α → Reader (Round α β)} {b : β}

theorem loop_again {a' : α} (h : round a pos = .ok (.again a', next)) :
    loop round (n + 1) a pos = loop round n a' next := by
  rw [loop, bind_ok h]

theorem loop_done (h : round a pos = .ok (.done b, next)) :
    loop round (n + 1) a pos = .ok (b, next) := by
  rw [loop, bind_ok h]
  rfl

theorem loop_error (h : round a pos = .error e) : loop round (n + 1) a pos = .error e := by
  rw [loop, bind_error h]

end Steps

/-! ### The place of the cursor -/

/-- The cursor is in front of these tokens, with no others behind them. -/
structure At (tokens : Tokens) (pos : Nat) (ts : List Placed) : Prop where
  bound : pos ≤ tokens.list.length
  left : tokens.list.drop pos = ts

/-- The first of the tokens that are left, or the end. -/
def front (finish : Position) : List Placed → Slot
  | [] => ⟨none, finish⟩
  | t :: _ => t.slot

theorem front_position (finish : Position) (ts : List Placed) :
    (front finish ts).position = place finish ts := by
  cases ts <;> rfl

theorem length_slots (tokens : Tokens) : tokens.slots.length = tokens.list.length + 1 := by
  simp [Tokens.slots]

namespace At

theorem start (tokens : Tokens) : At tokens 0 tokens.list :=
  ⟨Nat.zero_le _, rfl⟩

theorem of_lt (h : pos < tokens.slots.length) : At tokens pos (tokens.list.drop pos) := by
  rw [length_slots] at h
  exact ⟨Nat.le_of_lt_succ h, rfl⟩

theorem length (h : At tokens pos ts) : pos + ts.length = tokens.list.length := by
  rw [← h.left, List.length_drop]
  have := h.bound
  omega

theorem lt (h : At tokens pos (t :: ts)) : pos < tokens.list.length := by
  have hlength := h.length
  rw [List.length_cons] at hlength
  omega

/-- With no tokens left the cursor is at the end. -/
theorem eq_end (h : At tokens pos []) : pos = tokens.list.length :=
  h.length

theorem tail (h : At tokens pos (t :: ts)) : At tokens (pos + 1) ts := by
  refine ⟨h.lt, ?_⟩
  rw [← List.drop_drop, h.left]
  rfl

theorem get (h : At tokens pos ts) : tokens.slots[pos]? = some (front tokens.finish ts) := by
  cases ts with
  | nil => simp [Tokens.slots, front, h.eq_end]
  | cons t ts =>
    have inside := h.lt
    have left := h.left
    rw [List.drop_eq_getElem_cons inside] at left
    obtain ⟨rfl, _⟩ := List.cons.inj left
    simp [Tokens.slots, front, inside, List.getElem?_append_left]

theorem peek (h : At tokens pos ts) :
    peek tokens.slots pos = .ok (front tokens.finish ts, pos) := by
  simp only [Cursor.peek, h.get]

theorem advance (h : At tokens pos (t :: ts)) :
    advance tokens.slots pos = .ok (t.slot, pos + 1) := by
  have more : pos < tokens.slots.length - 1 := by
    rw [length_slots]
    exact h.lt
  rw [Cursor.advance, bind_ok h.peek, if_pos more]
  rfl

/-- At the end the cursor stays. -/
theorem advance_end (h : At tokens pos []) :
    Cursor.advance tokens.slots pos = .ok (⟨none, tokens.finish⟩, pos) := by
  have last : ¬ pos < tokens.slots.length - 1 := by
    rw [length_slots, h.eq_end]
    omega
  rw [Cursor.advance, bind_ok h.peek, if_neg last]
  rfl

end At

/-! ### The outcome of a reader -/

/-- What a phrase comes to: its value and the tokens that it leaves. -/
def outcome (y : Except SyntaxError (Parsed α ts)) : Except SyntaxError (α × List Placed) :=
  y.map fun r => (r.value, r.rest)

/-- A reader comes to the same: to the same fault, or to the same value with the cursor in front of
the tokens that are left. -/
def Agrees (tokens : Tokens) (x : Except Halt (α × Nat)) :
    Except SyntaxError (α × List Placed) → Prop
  | .error e => x = .error (.fault e)
  | .ok (a, rest) => ∃ pos, x = .ok (a, pos) ∧ At tokens pos rest

/-- A reader that goes on with what another one read. -/
theorem Agrees.bind {x : Reader α} {f : α → Reader β} {y : Except SyntaxError (Parsed α ts)}
    {z : Except SyntaxError (β × List Placed)} (h : Agrees tokens (x pos) (outcome y))
    (herror : ∀ e, y = .error e → z = .error e)
    (hok : ∀ r next, y = .ok r → At tokens next r.rest → Agrees tokens (f r.value next) z) :
    Agrees tokens ((x >>= f) pos) z := by
  cases y with
  | error e =>
    rw [herror e rfl]
    exact bind_error h
  | ok r =>
    obtain ⟨next, hrun, hnext⟩ := h
    rw [bind_ok hrun]
    exact hok r next rfl hnext

/-- A reader that gives the value of another one in another form. -/
theorem Agrees.map {us : List Placed} {x : Reader α} {f : α → β}
    {y : Except SyntaxError (Parsed α ts)} {g : Parsed α ts → Parsed β us}
    (h : Agrees tokens (x pos) (outcome y))
    (hg : ∀ r, (g r).value = f r.value ∧ (g r).rest = r.rest) :
    Agrees tokens ((x >>= fun a => pure (f a)) pos) (outcome (y.map g)) := by
  refine h.bind ?_ ?_
  · rintro e rfl
    rfl
  · rintro r next rfl hnext
    obtain ⟨hvalue, hrest⟩ := hg r
    refine ⟨next, ?_, hrest ▸ hnext⟩
    show Except.ok (f r.value, next) = .ok ((g r).value, next)
    rw [hvalue]

/-- The same with other tokens in front. -/
theorem Agrees.after {us : List Placed} {x : Except Halt (α × Nat)}
    {y : Except SyntaxError (Parsed α ts)} (h : Agrees tokens x (outcome y))
    (hless : ts.length < us.length) : Agrees tokens x (outcome (y.map (·.after hless))) := by
  cases y <;> exact h

theorem takeMark?_eq_some {m : Mark} {r : Parsed Unit ts} (h : takeMark? m ts = some r) :
    ∃ t, t.token = .mark m ∧ ts = t :: r.rest := by
  cases ts with
  | nil => cases h
  | cons t ts =>
    rw [takeMark?] at h
    split at h
    · next htoken =>
      cases h
      exact ⟨t, htoken, rfl⟩
    · cases h

theorem front_token_of_takeMark? {m : Mark} {r : Parsed Unit ts} (h : takeMark? m ts = some r)
    (finish : Position) : (front finish ts).token = some (.mark m) := by
  obtain ⟨t, htoken, hts⟩ := takeMark?_eq_some h
  rw [hts]
  exact congrArg some htoken

theorem front_token_of_none {m : Mark} (h : takeMark? m ts = none) (finish : Position) :
    (front finish ts).token ≠ some (.mark m) := by
  cases ts with
  | nil =>
    intro hsome
    cases hsome
  | cons t ts =>
    rw [takeMark?] at h
    split at h
    · cases h
    · next htoken => exact fun hsome => htoken (Option.some.inj hsome)

/-- The mark in front of the cursor is taken by going on. -/
theorem At.advance_mark (hat : At tokens pos ts) {m : Mark} {r : Parsed Unit ts}
    (h : takeMark? m ts = some r) :
    ∃ s, Cursor.advance tokens.slots pos = .ok (s, pos + 1) ∧ At tokens (pos + 1) r.rest := by
  obtain ⟨t, _, hts⟩ := takeMark?_eq_some h
  rw [hts] at hat
  exact ⟨t.slot, hat.advance, hat.tail⟩

theorem agrees_expect (hat : At tokens pos ts) (m : Mark) (what : Expectation) :
    Agrees tokens (expect tokens.slots m what pos) (outcome (takeMark tokens.finish m what ts)) := by
  rw [takeMark, expect]
  cases ts with
  | nil =>
    have hend : (⟨none, tokens.finish⟩ : Slot).token ≠ some (.mark m) :=
      (Option.some_ne_none _).symm
    rw [bind_ok hat.advance_end, if_neg hend]
    rfl
  | cons t ts =>
    rw [bind_ok hat.advance, takeMark?]
    by_cases htoken : t.token = .mark m
    · have hslot : t.slot.token = some (.mark m) := congrArg some htoken
      rw [if_pos htoken, if_pos hslot]
      exact ⟨pos + 1, rfl, hat.tail⟩
    · have hslot : t.slot.token ≠ some (.mark m) := fun h => htoken (Option.some.inj h)
      rw [if_neg htoken, if_neg hslot]
      rfl

theorem agrees_name (hat : At tokens pos ts) :
    Agrees tokens (name tokens.slots pos) (outcome (takeName tokens.finish ts)) := by
  rw [name]
  unfold takeName
  split
  · next w p rest =>
    rw [bind_ok hat.advance]
    simp only [Placed.slot]
    by_cases hword : isKeyword w
    · rw [if_pos hword, if_pos hword]
      rfl
    · rw [if_neg hword, if_neg hword]
      exact ⟨pos + 1, rfl, hat.tail⟩
  · next hword =>
    cases ts with
    | nil =>
      rw [bind_ok hat.advance_end]
      rfl
    | cons t ts =>
      obtain ⟨token, p⟩ := t
      rw [bind_ok hat.advance]
      cases token with
      | word w => exact absurd rfl (hword w p ts)
      | _ => rfl

/-- The loop over the field accesses goes over as many as there are. -/
theorem agrees_access (e : Expr) (hat : At tokens pos ts) (hn : ts.length < n) :
    Agrees tokens (loop (accessRound tokens.slots) n e pos)
      ((takeFields tokens.finish e ts).map (·.1)) := by
  induction n generalizing e pos ts with
  | zero => omega
  | succ n ih =>
    cases ts with
    | nil =>
      have hround : accessRound tokens.slots e pos = .ok (.done e, pos) := by
        rw [accessRound, bind_ok hat.peek]
        rfl
      rw [takeFields]
      exact ⟨pos, loop_done hround, hat⟩
    | cons t rest =>
      rw [takeFields]
      by_cases hdot : t.token = .mark .dot
      · have hslot : (front tokens.finish (t :: rest)).token = some (.mark .dot) :=
          congrArg some hdot
        have hname := agrees_name hat.tail
        rw [if_pos hdot]
        cases hread : takeName tokens.finish rest with
        | error fault =>
          rw [hread] at hname
          refine loop_error ?_
          rw [accessRound, bind_ok hat.peek, if_pos hslot, bind_ok hat.advance, bind_error hname]
        | ok r =>
          obtain ⟨x, rest', hshorter⟩ := r
          rw [hread] at hname
          obtain ⟨next, hrun, (hnext : At tokens next rest')⟩ := hname
          have hround : accessRound tokens.slots e pos = .ok (.again (.field e x), next) := by
            rw [accessRound, bind_ok hat.peek, if_pos hslot, bind_ok hat.advance, bind_ok hrun]
            rfl
          rw [List.length_cons] at hn
          have more := ih (.field e x) hnext (by omega)
          rw [loop_again hround]
          dsimp only
          revert more
          cases takeFields tokens.finish (.field e x) rest' <;> exact id
      · have hslot : (front tokens.finish (t :: rest)).token ≠ some (.mark .dot) :=
          fun h => hdot (Option.some.inj h)
        have hround : accessRound tokens.slots e pos = .ok (.done e, pos) := by
          rw [accessRound, bind_ok hat.peek, if_neg hslot]
          rfl
        rw [if_neg hdot]
        exact ⟨pos, loop_done hround, hat⟩

/-! ### Lists -/

section Lists

variable {separators : List Mark} {close : Mark} {what : Expectation} {entry : Reader α}
  {taken : List α} {a : α} {e : Halt} {r : Parsed Unit ts}

theorem separated_of_separator {b : α} (hat : At tokens pos ts) {m : Mark} (hm : m ∈ separators)
    (htake : takeMark? m ts = some r) :
    (separated tokens.slots separators close what b : Reader (Round α β)) pos =
      .ok (.again b, pos + 1) := by
  obtain ⟨_, hadvance, _⟩ := hat.advance_mark htake
  rw [separated, bind_ok hat.peek, if_pos ⟨m, hm, front_token_of_takeMark? htake _⟩,
    bind_ok hadvance]
  rfl

section NoSeparator

variable (hseparators : ∀ m ∈ separators, takeMark? m ts = none)
include hseparators

theorem not_separator (finish : Position) :
    ¬ ∃ m ∈ separators, (front finish ts).token = some (.mark m) := by
  rintro ⟨m, hm, htoken⟩
  exact front_token_of_none (hseparators m hm) finish htoken

theorem separated_of_close {b : α} (hat : At tokens pos ts) (htake : takeMark? close ts = some r) :
    (separated tokens.slots separators close what b : Reader (Round α β)) pos =
      .ok (.again b, pos) := by
  rw [separated, bind_ok hat.peek, if_neg (not_separator hseparators _),
    if_pos (front_token_of_takeMark? htake _)]
  rfl

theorem separated_of_none {b : α} (hat : At tokens pos ts) (hclose : takeMark? close ts = none) :
    (separated tokens.slots separators close what b : Reader (Round α β)) pos =
      .error (.fault (expected tokens.finish what ts)) := by
  rw [separated, bind_ok hat.peek, if_neg (not_separator hseparators _),
    if_neg (front_token_of_none hclose _), expected, ← front_position]
  rfl

end NoSeparator

/-- The mark that closes a list ends the loop over its entries. -/
theorem entryRound_done (hat : At tokens pos ts) (htake : takeMark? close ts = some r) :
    entryRound tokens.slots separators close what entry taken pos = .ok (.done taken, pos + 1) := by
  obtain ⟨_, hadvance, _⟩ := hat.advance_mark htake
  rw [entryRound, bind_ok hat.peek, if_pos (front_token_of_takeMark? htake _), bind_ok hadvance]
  rfl

theorem entryRound_error (hat : At tokens pos ts) (hopen : takeMark? close ts = none)
    (hentry : entry pos = .error e) :
    entryRound tokens.slots separators close what entry taken pos = .error e := by
  rw [entryRound, bind_ok hat.peek, if_neg (front_token_of_none hopen _), bind_error hentry]

theorem entryRound_ok (hat : At tokens pos ts) (hopen : takeMark? close ts = none)
    (hentry : entry pos = .ok (a, next)) :
    entryRound tokens.slots separators close what entry taken pos =
      separated tokens.slots separators close what (taken ++ [a]) next := by
  rw [entryRound, bind_ok hat.peek, if_neg (front_token_of_none hopen _), bind_ok hentry]

end Lists

/-- Reads the entries of a list up to the mark that closes it. Behind each stands a separator, or
the mark. -/
def parseEntries (finish : Position) (separators : List Mark) (close : Mark) (what : Expectation)
    (entry : (ts : List Placed) → ts.length < n → Except SyntaxError (Parsed α ts))
    (ts : List Placed) (below : ts.length < n) : Except SyntaxError (Parsed (List α) ts) :=
  match takeMark? close ts with
  | some ⟨_, rest, h⟩ => .ok ⟨[], rest, h⟩
  | none =>
    match entry ts below with
    | .error fault => .error fault
    | .ok ⟨a, rest, h⟩ =>
      match separators.findSome? (takeMark? · rest) with
      | some ⟨_, rest₁, h₁⟩ =>
        match parseEntries finish separators close what entry rest₁ (by omega) with
        | .error fault => .error fault
        | .ok ⟨more, rest₂, h₂⟩ => .ok ⟨a :: more, rest₂, by omega⟩
      | none =>
        match takeMark finish close what rest with
        | .error fault => .error fault
        | .ok ⟨_, rest₁, h₁⟩ => .ok ⟨[a], rest₁, by omega⟩
termination_by ts.length
decreasing_by omega

section Entries

variable {separators : List Mark} {close : Mark} {what : Expectation} {m : Nat}
  {entry : (ts : List Placed) → ts.length < m → Except SyntaxError (Parsed α ts)}
  {reader : Reader α}
  (hentry : ∀ {pos ts} below, At tokens pos ts →
    Agrees tokens (reader pos) (outcome (entry ts below)))
include hentry

/-- The loop over the entries of a list goes over as many as there are, and ends behind the mark
that closes it. -/
theorem agrees_more_entries (taken : List α) (below : ts.length < m) (hat : At tokens pos ts)
    (hn : ts.length < n) :
    Agrees tokens (loop (entryRound tokens.slots separators close what reader) n taken pos)
      ((outcome (parseEntries tokens.finish separators close what entry ts below)).map
        fun r => (taken ++ r.1, r.2)) := by
  induction n generalizing taken pos ts with
  | zero => omega
  | succ n ih =>
    rw [parseEntries]
    cases hclose : takeMark? close ts with
    | some r =>
      obtain ⟨_, _, hrest⟩ := hat.advance_mark hclose
      refine ⟨pos + 1, ?_, hrest⟩
      rw [loop_done (entryRound_done hat hclose), List.append_nil]
    | none =>
      have hread := hentry below hat
      cases hitem : entry ts below with
      | error fault =>
        rw [hitem] at hread
        exact loop_error (entryRound_error hat hclose hread)
      | ok r =>
        obtain ⟨a, rest, hshorter⟩ := r
        rw [hitem] at hread
        obtain ⟨next, hrun, (hnext : At tokens next rest)⟩ := hread
        have hround : entryRound tokens.slots separators close what reader taken pos =
            separated tokens.slots separators close what (taken ++ [a]) next :=
          entryRound_ok hat hclose hrun
        dsimp only
        cases hfind : separators.findSome? (takeMark? · rest) with
        | some r =>
          obtain ⟨m, hm, htake⟩ := List.exists_of_findSome?_eq_some hfind
          obtain ⟨_, _, hrest⟩ := hnext.advance_mark htake
          have hless := r.shorter
          have more := ih (taken ++ [a]) (by omega) hrest (by omega)
          rw [loop_again (hround.trans (separated_of_separator hnext hm htake))]
          obtain ⟨_, rest₁, h₁⟩ := r
          dsimp only at more ⊢
          revert more
          cases parseEntries tokens.finish separators close what entry rest₁ _ with
          | error fault => exact id
          | ok r =>
            rintro ⟨last, hloop, hlast⟩
            refine ⟨last, ?_, hlast⟩
            rw [hloop, List.append_assoc]
            rfl
        | none =>
          have hseparators := List.findSome?_eq_none_iff.1 hfind
          dsimp only
          rw [takeMark]
          cases hlast : takeMark? close rest with
          | some r =>
            obtain ⟨_, _, hrest⟩ := hnext.advance_mark hlast
            have hless := r.shorter
            obtain ⟨n, rfl⟩ : ∃ k, n = k + 1 := Nat.exists_eq_add_one_of_ne_zero (by omega)
            refine ⟨next + 1, ?_, hrest⟩
            rw [loop_again (hround.trans (separated_of_close hseparators hnext hlast)),
              loop_done (entryRound_done hnext hlast)]
          | none => exact loop_error (hround.trans (separated_of_none hseparators hnext hlast))

theorem agrees_entries (below : ts.length < m) (hat : At tokens pos ts) (hn : ts.length < n) :
    Agrees tokens (loop (entryRound tokens.slots separators close what reader) n [] pos)
      (outcome (parseEntries tokens.finish separators close what entry ts below)) := by
  have h : Agrees tokens (loop (entryRound tokens.slots separators close what reader) n [] pos) _ :=
    agrees_more_entries hentry [] below hat hn
  revert h
  cases parseEntries tokens.finish separators close what entry ts below <;> exact id

end Entries

theorem findSome?_singleton (m : Mark) (ts : List Placed) :
    [m].findSome? (takeMark? · ts) = takeMark? m ts := by
  simp only [List.findSome?_cons, List.findSome?_nil]
  cases takeMark? m ts <;> rfl

theorem findSome?_pair (m m' : Mark) (ts : List Placed) :
    [m, m'].findSome? (takeMark? · ts) = (takeMark? m ts).or (takeMark? m' ts) := by
  rw [List.findSome?_cons, findSome?_singleton]
  cases takeMark? m ts <;> rfl

theorem parseItems_eq (finish : Position) (expr : ExprReader n) (below : ts.length < n) :
    parseItems finish expr ts below =
      parseEntries finish [.comma] .closeParen .commaOrCloseParen expr ts below := by
  fun_induction parseItems finish expr ts below <;> rw [parseEntries] <;>
    simp_all only [findSome?_singleton]

/-- Reads a name, an equals sign and an expression. -/
def parseField (finish : Position) (expr : ExprReader n) (ts : List Placed)
    (below : ts.length < n) : Except SyntaxError (Parsed (String × Expr) ts) :=
  match takeName finish ts with
  | .error fault => .error fault
  | .ok ⟨key, rest, h⟩ =>
    match takeMark finish .equals .equals rest with
    | .error fault => .error fault
    | .ok ⟨_, rest₁, h₁⟩ =>
      match expr rest₁ (by omega) with
      | .error fault => .error fault
      | .ok ⟨e, rest₂, h₂⟩ => .ok ⟨(key, e), rest₂, by omega⟩

theorem parseFields_eq (finish : Position) (expr : ExprReader n) (below : ts.length < n) :
    parseFields finish expr ts below =
      parseEntries finish [.comma, .semicolon] .closeBrace .commaOrCloseBrace
        (parseField finish expr) ts below := by
  fun_induction parseFields finish expr ts below <;> rw [parseEntries] <;>
    simp_all only [findSome?_pair, parseField]

theorem parseBinding_eq (finish : Position) (below : ts.length < n) :
    parseBinding finish ts =
      parseField finish (fun ts (_ : ts.length < n) => parseExpr finish ts) ts below :=
  rfl

/-! ### Expressions and statements -/

section Expressions

variable {m : Nat} {expr : ExprReader m} {reader : Reader Expr}
  (hexpr : ∀ {pos ts} below, At tokens pos ts →
    Agrees tokens (reader pos) (outcome (expr ts below)))
include hexpr

theorem agrees_binding (below : ts.length < m) (hat : At tokens pos ts) :
    Agrees tokens (binding tokens.slots reader pos)
      (outcome (parseField tokens.finish expr ts below)) := by
  rw [binding, parseField]
  refine (agrees_name hat).bind ?_ ?_
  · intro e hname
    rw [hname]
    rfl
  rintro ⟨x, rest, h⟩ pos₁ hname hat
  rw [hname]
  refine (agrees_expect hat _ _).bind ?_ ?_
  · intro e hequals
    simp only [hequals]
    rfl
  rintro ⟨_, rest₁, h₁⟩ pos₂ hequals hat
  simp only [hequals]
  refine (hexpr (Nat.lt_trans (Nat.lt_trans h₁ h) below) hat).bind ?_ ?_
  · intro e hvalue
    rw [hvalue]
    rfl
  rintro ⟨e, rest₂, h₂⟩ pos₃ hvalue hat
  rw [hvalue]
  exact ⟨pos₃, rfl, hat⟩

theorem agrees_closed (below : ts.length < m) (hat : At tokens pos ts) :
    Agrees tokens (closed tokens.slots reader pos)
      (outcome (parseClosed tokens.finish expr ts below)) := by
  rw [closed, parseClosed]
  refine (hexpr below hat).bind ?_ ?_
  · intro e hvalue
    rw [hvalue]
    rfl
  rintro ⟨e, rest, h⟩ pos₁ hvalue hat
  rw [hvalue]
  refine (agrees_expect hat _ _).bind ?_ ?_
  · intro e hclose
    simp only [hclose]
    rfl
  rintro ⟨_, rest₁, h₁⟩ pos₂ hclose hat
  simp only [hclose]
  exact ⟨pos₂, rfl, hat⟩

theorem agrees_argument (below : ts.length < m) (hat : At tokens pos ts) :
    Agrees tokens (argument tokens.slots reader pos)
      (outcome (parseArgument tokens.finish expr ts below)) := by
  rw [argument, parseArgument, bind_ok hat.peek]
  cases hopen : takeMark? .openParen ts with
  | some r =>
    obtain ⟨_, hadvance, hrest⟩ := hat.advance_mark hopen
    rw [if_pos (front_token_of_takeMark? hopen _), bind_ok hadvance]
    exact (agrees_closed hexpr (Nat.lt_trans r.shorter below) hrest).after r.shorter
  | none =>
    rw [if_neg (front_token_of_none hopen _)]
    exact hexpr below hat

theorem agrees_items (below : ts.length < m) (hat : At tokens pos ts) (hn : ts.length < n) :
    Agrees tokens (loop (itemRound tokens.slots reader) n [] pos)
      (outcome (parseItems tokens.finish expr ts below)) := by
  rw [itemRound, parseItems_eq]
  exact agrees_entries hexpr below hat hn

theorem agrees_fields (below : ts.length < m) (hat : At tokens pos ts) (hn : ts.length < n) :
    Agrees tokens (loop (fieldRound tokens.slots reader) n [] pos)
      (outcome (parseFields tokens.finish expr ts below)) := by
  rw [fieldRound, parseFields_eq]
  exact agrees_entries (agrees_binding hexpr) below hat hn

theorem agrees_arguments (below : ts.length < m) (hat : At tokens pos ts) (hn : ts.length ≤ n) :
    Agrees tokens (arguments tokens.slots n reader pos)
      (outcome (parseArguments tokens.finish expr ts below)) := by
  rw [arguments, parseArguments, bind_ok hat.peek]
  cases hopen : takeMark? .openParen ts with
  | some r =>
    obtain ⟨_, hadvance, hrest⟩ := hat.advance_mark hopen
    have hless := r.shorter
    rw [if_pos (front_token_of_takeMark? hopen _), bind_ok hadvance]
    exact (agrees_items hexpr (by omega) hrest (by omega)).after hless
  | none =>
    rw [if_neg (front_token_of_none hopen _)]
    exact (hexpr below hat).map fun r => ⟨rfl, rfl⟩

end Expressions

theorem agrees_refuse (s : Slot) (fault : SyntaxFault) :
    Agrees tokens ((refuse s fault : Reader α) pos) (.error ⟨fault, s.position⟩) :=
  rfl

theorem agrees_primary {expr : ExprReader ts.length} {reader : Reader Expr}
    (hexpr : ∀ {pos us} below, At tokens pos us →
      Agrees tokens (reader pos) (outcome (expr us below)))
    (hat : At tokens pos ts) (hn : ts.length ≤ n) :
    Agrees tokens (primary tokens.slots n reader pos)
      (outcome (parsePrimary tokens.finish ts expr)) := by
  rw [primary]
  cases ts with
  | nil =>
    rw [bind_ok hat.advance_end]
    exact agrees_refuse _ _
  | cons t rest =>
    obtain ⟨token, p⟩ := t
    have below : rest.length < (⟨token, p⟩ :: rest : List Placed).length := Nat.lt_succ_self _
    have hrest := hat.tail
    rw [bind_ok hat.advance, parsePrimary]
    dsimp only [Placed.slot]
    cases token with
    | int k => exact ⟨pos + 1, rfl, hrest⟩
    | str text => exact ⟨pos + 1, rfl, hrest⟩
    | mark m =>
      cases m with
      | openBrace =>
        exact (agrees_fields hexpr below hrest hn).map fun r => ⟨rfl, rfl⟩
      | openParen => exact (agrees_closed hexpr below hrest).after below
      | _ => exact agrees_refuse _ _
    | word w =>
      dsimp only
      by_cases hnil : w = "nil"
      · rw [if_pos hnil, if_pos hnil]
        exact ⟨pos + 1, rfl, hrest⟩
      rw [if_neg hnil, if_neg hnil]
      by_cases htrue : w = "true"
      · rw [if_pos htrue, if_pos htrue]
        exact ⟨pos + 1, rfl, hrest⟩
      rw [if_neg htrue, if_neg htrue]
      by_cases hfalse : w = "false"
      · rw [if_pos hfalse, if_pos hfalse]
        exact ⟨pos + 1, rfl, hrest⟩
      rw [if_neg hfalse, if_neg hfalse]
      by_cases hrequire : w = "require"
      · rw [if_pos hrequire, if_pos hrequire]
        refine (agrees_argument hexpr below hrest).bind ?_ ?_
        · intro e hargument
          rw [hargument]
          rfl
        rintro ⟨e, rest', h⟩ next hargument hnext
        rw [hargument]
        cases e with
        | str specifier => exact ⟨next, rfl, hnext⟩
        | _ => exact agrees_refuse _ _
      rw [if_neg hrequire, if_neg hrequire]
      by_cases hcall : (Builtin.ofName? w).isSome = true
      · rw [if_pos hcall, if_pos hcall]
        exact (agrees_arguments hexpr below hrest (Nat.le_of_lt hn)).map fun r => ⟨rfl, rfl⟩
      rw [if_neg hcall, if_neg hcall]
      by_cases hword : isKeyword w
      · rw [if_pos hword, if_pos hword]
        exact agrees_refuse _ _
      · rw [if_neg hword, if_neg hword]
        exact ⟨pos + 1, rfl, hrest⟩

/-- Expressions nest no deeper than there are tokens. -/
theorem agrees_expr (hat : At tokens pos ts) (hn : ts.length < n) :
    Agrees tokens (expr tokens.slots n pos) (outcome (parseExpr tokens.finish ts)) := by
  induction n generalizing pos ts with
  | zero => omega
  | succ n ih =>
    rw [expr, parseExpr]
    have hinner : ∀ {pos us}, us.length < ts.length → At tokens pos us →
        Agrees tokens (expr tokens.slots n pos) (outcome (parseExpr tokens.finish us)) :=
      fun below hat => ih hat (Nat.lt_of_lt_of_le below (Nat.le_of_lt_succ hn))
    refine (agrees_primary hinner hat (Nat.le_of_lt_succ hn)).bind ?_ ?_
    · intro e hfault
      rw [hfault]
      rfl
    rintro ⟨e, rest, h⟩ next hread (hnext : At tokens next rest)
    rw [hread]
    have haccess : Agrees tokens (loop (accessRound tokens.slots) n e next) _ :=
      agrees_access e hnext (by omega)
    dsimp only
    revert haccess
    cases takeFields tokens.finish e rest <;> exact id

theorem agrees_returned (hat : At tokens pos rest) (hn : rest.length < n) :
    Agrees tokens (returned tokens.slots n pos)
      (outcome (parseReturn tokens.finish t rest)) := by
  rw [returned, parseReturn, bind_ok hat.peek]
  cases rest with
  | nil => exact ⟨pos, rfl, hat⟩
  | cons u rest =>
    obtain ⟨token, p⟩ := u
    have hread : Agrees tokens ((expr tokens.slots n >>= fun e => pure (.return e)) pos)
        (outcome ((parseExpr tokens.finish (⟨token, p⟩ :: rest)).map fun r =>
          ((r.map Action.return).after (Nat.lt_succ_self _) :
            Parsed Action (t :: ⟨token, p⟩ :: rest)))) :=
      (agrees_expr hat hn).map fun r => ⟨rfl, rfl⟩
    cases token with
    | mark m =>
      cases m with
      | semicolon => exact ⟨pos, rfl, hat⟩
      | _ => exact hread
    | _ => exact hread

theorem agrees_action (hat : At tokens pos ts) (hn : ts.length < n) :
    Agrees tokens (action tokens.slots n (front tokens.finish ts) pos)
      (outcome (parseAction tokens.finish ts)) := by
  rw [action]
  cases ts with
  | nil => exact agrees_refuse _ _
  | cons t rest =>
    obtain ⟨token, p⟩ := t
    have below : rest.length < (⟨token, p⟩ :: rest : List Placed).length := Nat.lt_succ_self _
    have hrest := hat.tail
    have hexpr : ∀ {pos us}, us.length < (⟨token, p⟩ :: rest : List Placed).length →
        At tokens pos us →
        Agrees tokens (expr tokens.slots n pos) (outcome (parseExpr tokens.finish us)) :=
      fun hless hat => agrees_expr hat (Nat.lt_trans hless hn)
    rw [parseAction]
    cases token with
    | word w =>
      dsimp only [front, Placed.slot]
      by_cases hlocal : w = "local"
      · rw [if_pos hlocal, if_pos hlocal, bind_ok hat.advance]
        have h := agrees_binding hexpr below hrest
        rw [← parseBinding_eq] at h
        exact h.map fun r => ⟨rfl, rfl⟩
      rw [if_neg hlocal, if_neg hlocal]
      by_cases hexport : w = "export"
      · rw [if_pos hexport, if_pos hexport, bind_ok hat.advance]
        have h := agrees_binding hexpr below hrest
        rw [← parseBinding_eq] at h
        exact h.map fun r => ⟨rfl, rfl⟩
      rw [if_neg hexport, if_neg hexport]
      by_cases hlink : w = "link"
      · rw [if_pos hlink, if_pos hlink, bind_ok hat.advance]
        exact (agrees_argument hexpr below hrest).map fun r => ⟨rfl, rfl⟩
      rw [if_neg hlink, if_neg hlink]
      by_cases hreturn : w = "return"
      · rw [if_pos hreturn, if_pos hreturn, bind_ok hat.advance]
        exact agrees_returned hrest (Nat.lt_trans below hn)
      rw [if_neg hreturn, if_neg hreturn]
      by_cases hcall : (w = "require" || (Builtin.ofName? w).isSome) = true
      · rw [if_pos hcall, if_pos hcall]
        exact (agrees_expr hat hn).map fun r => ⟨rfl, rfl⟩
      · rw [if_neg hcall, if_neg hcall]
        exact agrees_refuse _ _
    | _ => exact agrees_refuse _ _

theorem agrees_statement (hat : At tokens pos ts) (hn : ts.length < n) :
    Agrees tokens (statement tokens.slots n pos)
      (outcome ((parseAction tokens.finish ts).map
        (·.map fun a => ⟨a, place tokens.finish ts⟩))) := by
  rw [statement, bind_ok hat.peek]
  exact (agrees_action hat hn).map fun r => ⟨by rw [front_position]; rfl, rfl⟩

/-! ### Scripts -/

/-- The token is a semicolon. -/
def isSemicolon (t : Placed) : Bool :=
  t.token = .mark .semicolon

/-- The loop over semicolons ends in front of what is none. -/
theorem loop_semicolons (hat : At tokens pos ts) (hn : ts.length < n) :
    ∃ next, loop (semicolonRound tokens.slots) n () pos = .ok ((), next) ∧
      At tokens next (ts.dropWhile isSemicolon) := by
  induction n generalizing pos ts with
  | zero => omega
  | succ n ih =>
    by_cases hfront : (front tokens.finish ts).token = some (.mark .semicolon)
    · cases ts with
      | nil => cases hfront
      | cons t rest =>
        have hround : semicolonRound tokens.slots () pos = .ok (.again (), pos + 1) := by
          rw [semicolonRound, bind_ok hat.peek, if_pos hfront, bind_ok hat.advance]
          rfl
        have htoken : isSemicolon t = true := decide_eq_true (Option.some.inj hfront)
        rw [loop_again hround, List.dropWhile_cons_of_pos htoken]
        rw [List.length_cons] at hn
        exact ih hat.tail (by omega)
    · have hround : semicolonRound tokens.slots () pos = .ok (.done (), pos) := by
        rw [semicolonRound, bind_ok hat.peek, if_neg hfront]
        rfl
      refine ⟨pos, loop_done hround, ?_⟩
      cases ts with
      | nil => exact hat
      | cons t rest =>
        have htoken : ¬ isSemicolon t = true := fun h =>
          hfront (congrArg some (of_decide_eq_true h))
        rw [List.dropWhile_cons_of_neg htoken]
        exact hat

theorem parseStatements_dropWhile (finish : Position) (returned : Bool) (ts : List Placed) :
    parseStatements finish returned (ts.dropWhile isSemicolon) =
      parseStatements finish returned ts := by
  induction ts with
  | nil => rfl
  | cons t rest ih =>
    by_cases htoken : t.token = .mark .semicolon
    · have hskip : isSemicolon t = true := decide_eq_true htoken
      rw [List.dropWhile_cons_of_pos hskip, ih, parseStatements, if_pos htoken]
    · have hstay : ¬ isSemicolon t = true := fun h => htoken (of_decide_eq_true h)
      rw [List.dropWhile_cons_of_neg hstay]

section StatementRound

variable {taken : List Statement} (hskip : loop (semicolonRound tokens.slots) n () pos = .ok ((), next))
include hskip

/-- At the end of the script the loop over its statements ends. -/
theorem statementRound_done (hnext : At tokens next []) :
    statementRound tokens.slots n taken pos = .ok (.done taken, next) := by
  have hnone : (front tokens.finish []).token = none := rfl
  rw [statementRound, bind_ok hskip, bind_ok hnext.peek, if_pos hnone]
  rfl

theorem statementRound_returned (hnext : At tokens next (t :: rest))
    (hreturned : taken.getLast?.any (·.action.isReturn) = true) :
    statementRound tokens.slots n taken pos = .error (.fault ⟨.afterReturn, t.position⟩) := by
  have hsome : (front tokens.finish (t :: rest)).token ≠ none := Option.some_ne_none _
  rw [statementRound, bind_ok hskip, bind_ok hnext.peek, if_neg hsome, if_pos hreturned]
  rfl

theorem statementRound_statement (hnext : At tokens next (t :: rest))
    (hreturned : ¬ taken.getLast?.any (·.action.isReturn) = true) :
    statementRound tokens.slots n taken pos =
      (statement tokens.slots n >>= fun s => pure (.again (taken ++ [s]))) next := by
  have hsome : (front tokens.finish (t :: rest)).token ≠ none := Option.some_ne_none _
  rw [statementRound, bind_ok hskip, bind_ok hnext.peek, if_neg hsome, if_neg hreturned]

end StatementRound

/-- The loop over the statements goes over as many as there are, and ends at the end. -/
theorem agrees_statements {count : Nat} (taken : List Statement) (hat : At tokens pos ts)
    (hn : ts.length < n) (hcount : ts.length < count) :
    Agrees tokens (loop (statementRound tokens.slots n) count taken pos)
      ((parseStatements tokens.finish (taken.getLast?.any (·.action.isReturn)) ts).map
        fun more => (taken ++ more, [])) := by
  induction count generalizing taken pos ts with
  | zero => omega
  | succ count ih =>
    obtain ⟨next, hskip, hnext⟩ := loop_semicolons hat hn
    have hless := length_dropWhile_le isSemicolon ts
    have hhead := List.head?_dropWhile_not isSemicolon ts
    rw [← parseStatements_dropWhile]
    generalize ts.dropWhile isSemicolon = us at hnext hless hhead
    cases us with
    | nil =>
      rw [parseStatements]
      refine ⟨next, ?_, hnext⟩
      rw [loop_done (statementRound_done hskip hnext), List.append_nil]
    | cons t rest =>
      have htoken : t.token ≠ .mark .semicolon := of_decide_eq_false hhead
      rw [parseStatements, if_neg htoken]
      by_cases hreturned : taken.getLast?.any (·.action.isReturn) = true
      · rw [if_pos hreturned]
        exact loop_error (statementRound_returned hskip hnext hreturned)
      rw [if_neg hreturned]
      have hround := statementRound_statement hskip hnext hreturned
      have hread := agrees_statement hnext (Nat.lt_of_le_of_lt hless hn)
      cases hparse : parseAction tokens.finish (t :: rest) with
      | error fault =>
        rw [hparse] at hread
        exact loop_error (hround.trans (bind_error hread))
      | ok r =>
        obtain ⟨a, rest', hshorter⟩ := r
        rw [hparse] at hread
        obtain ⟨last, hrun, (hlast : At tokens last rest')⟩ := hread
        have hstep : statementRound tokens.slots n taken pos =
            .ok (.again (taken ++ [⟨a, t.position⟩]), last) :=
          hround.trans (bind_ok hrun)
        have more := ih (taken ++ [⟨a, t.position⟩]) hlast (by omega) (by omega)
        rw [loop_again hstep]
        rw [List.getLast?_concat, Option.any_some] at more
        dsimp only
        revert more
        cases parseStatements tokens.finish a.isReturn rest' with
        | error fault => exact id
        | ok statements =>
          rintro ⟨stop, hloop, hstop⟩
          refine ⟨stop, ?_, hstop⟩
          rw [hloop, List.append_assoc]
          rfl

/-- The cursor reads the statements of a script, and stops at its end. -/
theorem agrees_script (hn : tokens.list.length < n) :
    Agrees tokens (script tokens.slots n 0)
      ((parseStatements tokens.finish false tokens.list).map fun statements => (statements, [])) :=
  agrees_statements [] (At.start tokens) hn hn

end ScriptBuild.Script.Cursor
