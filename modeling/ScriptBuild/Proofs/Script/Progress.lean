import ScriptBuild.Proofs.Script.Agreement
import ScriptBuild.Proofs.Script.Returns
import ScriptBuild.Proofs.Script.Spelling

/-!
# Progress of the cursor

A phrase leaves fewer tokens than it was read off, so a reader that agrees with the descent goes over
tokens, one at least, and never over the end, or it reports a fault. Main statement:
`script_terminates`, for the slots of any text: every reader and every round of a loop makes that
progress wherever it begins, and a script is only read with the cursor at the end.
-/

namespace ScriptBuild.Script

theorem slotsFrom_eq (p : Position) (cs : List Char) :
    slotsFrom p cs = (tokensFrom p cs).map Tokens.slots := by
  fun_induction slotsFrom p cs with
  | case1 p cs q h =>
    rw [tokensFrom_of_end h]
    rfl
  | case2 p cs q c text h e hr =>
    rw [tokensFrom_of_skip h, hr]
    rfl
  | case3 p cs q c text h token rest hr _ ih =>
    rw [tokensFrom_of_skip h, hr, ih]
    show _ = Except.map _ (Except.map _ (tokensFrom rest.position rest.text))
    cases tokensFrom rest.position rest.text <;> rfl

namespace Cursor

/-- The cursor goes on over tokens, over one at least and never over the end. -/
structure Advances (slots : List Slot) (pos next : Nat) : Prop where
  further : pos < next
  inside : next < slots.length
  tokens : ∀ i, pos ≤ i → i < next → ∃ s t, slots[i]? = some s ∧ s.token = some t

/-- The reader takes tokens from this place on, or reports a fault. -/
def Takes {α : Type} (slots : List Slot) (x : Reader α) (pos : Nat) : Prop :=
  (∃ e, x pos = .error (.fault e)) ∨ ∃ a next, x pos = .ok (a, next) ∧ Advances slots pos next

/-- Another round follows only behind tokens that this one takes. Without one, the round reports a
fault or ends the loop at such a place. -/
def Turns {α β : Type} (slots : List Slot) (x : Reader (Round α β)) (pos : Nat)
    (ends : Nat → Prop) : Prop :=
  (∃ e, x pos = .error (.fault e)) ∨
    (∃ a next, x pos = .ok (.again a, next) ∧ Advances slots pos next) ∨
    ∃ b next, x pos = .ok (.done b, next) ∧ ends next

/-- All readers and rounds make progress from a place. -/
structure Progress (slots : List Slot) (n pos : Nat) : Prop where
  statement : Takes slots (statement slots n) pos
  expression : Takes slots (expr slots n) pos
  primary : Takes slots (primary slots n (expr slots n)) pos
  closed : Takes slots (closed slots (expr slots n)) pos
  argument : Takes slots (argument slots (expr slots n)) pos
  arguments : Takes slots (arguments slots n (expr slots n)) pos
  table : Takes slots (table slots n (expr slots n)) pos
  binding : Takes slots (binding slots (expr slots n)) pos
  itemRound : ∀ items,
    Turns slots (itemRound slots (expr slots n) items) pos (Advances slots pos)
  fieldRound : ∀ fields,
    Turns slots (fieldRound slots (expr slots n) fields) pos (Advances slots pos)
  accessRound : ∀ e, Turns slots (accessRound slots e) pos (· = pos)
  semicolonRound : Turns slots (semicolonRound slots ()) pos (· = pos)
  statementRound : ∀ taken,
    Turns slots (statementRound slots n taken) pos (· + 1 = slots.length)

variable {α β : Type} {tokens : Tokens} {ts rest : List Placed} {pos next n : Nat}

theorem advances_of_at (hat : At tokens pos ts) (hnext : At tokens next rest)
    (hless : rest.length < ts.length) : Advances tokens.slots pos next := by
  have hlength := length_slots tokens
  have hbefore := hat.length
  have hafter := hnext.length
  refine ⟨by omega, by omega, fun i _ hi => ?_⟩
  have hi : i < tokens.list.length := by omega
  refine ⟨tokens.list[i].slot, tokens.list[i].token, ?_, rfl⟩
  simp [Tokens.slots, List.getElem?_append_left, hi]

theorem takes_of_agrees {x : Reader α} {y : Except SyntaxError (Parsed α ts)}
    (hat : At tokens pos ts) (h : Agrees tokens (x pos) (outcome y)) :
    Takes tokens.slots x pos := by
  cases y with
  | error e => exact .inl ⟨e, h⟩
  | ok r =>
    obtain ⟨next, hrun, hnext⟩ := h
    exact .inr ⟨r.value, next, hrun, advances_of_at hat hnext r.shorter⟩

theorem Advances.place (h : Advances tokens.slots pos next) :
    At tokens next (tokens.list.drop next) :=
  .of_lt h.inside

theorem Advances.trans {slots : List Slot} {last : Nat} (h : Advances slots pos next)
    (h' : Advances slots next last) : Advances slots pos last := by
  refine ⟨Nat.lt_trans h.further h'.further, h'.inside, fun i hpos hlast => ?_⟩
  by_cases hi : i < next
  · exact h.tokens i hpos hi
  · exact h'.tokens i (Nat.le_of_not_lt hi) hlast

/-- Going on over a mark is progress. -/
theorem advances_mark (hat : At tokens pos ts) {m : Mark} {r : Parsed Unit ts}
    (h : takeMark? m ts = some r) : Advances tokens.slots pos (pos + 1) := by
  obtain ⟨_, _, hrest⟩ := hat.advance_mark h
  exact advances_of_at hat hrest r.shorter

section Rounds

variable {separators : List Mark} {close : Mark} {what : Expectation}

/-- Behind an entry follows another round, or a fault. -/
theorem turns_separated {ends : Nat → Prop} (hadvances : Advances tokens.slots pos next)
    {round : Reader (Round α β)} {taken : α}
    (hround : round pos = separated tokens.slots separators close what taken next) :
    Turns tokens.slots round pos ends := by
  have hat := hadvances.place
  cases hfind : separators.findSome? (takeMark? · (tokens.list.drop next)) with
  | some r =>
    obtain ⟨m, hm, htake⟩ := List.exists_of_findSome?_eq_some hfind
    have hstep := hround.trans (separated_of_separator hat hm htake)
    exact .inr (.inl ⟨taken, next + 1, hstep, hadvances.trans (advances_mark hat htake)⟩)
  | none =>
    have hseparators := List.findSome?_eq_none_iff.1 hfind
    cases hlast : takeMark? close (tokens.list.drop next) with
    | some r =>
      have hstep := hround.trans (separated_of_close hseparators hat hlast)
      exact .inr (.inl ⟨taken, next, hstep, hadvances⟩)
    | none =>
      have hfault := hround.trans (separated_of_none hseparators hat hlast)
      exact .inl ⟨_, hfault⟩

/-- A round over the entries of a list makes progress where its entries do. -/
theorem turns_entryRound {entry : Reader α} (hpos : pos < tokens.slots.length)
    (hentry : Takes tokens.slots entry pos) (taken : List α) :
    Turns tokens.slots (entryRound tokens.slots separators close what entry taken) pos
      (Advances tokens.slots pos) := by
  have hat := At.of_lt hpos
  cases hclose : takeMark? close (tokens.list.drop pos) with
  | some r =>
    exact .inr (.inr ⟨taken, pos + 1, entryRound_done hat hclose, advances_mark hat hclose⟩)
  | none =>
    obtain ⟨e, hfault⟩ | ⟨a, next, hrun, hadvances⟩ := hentry
    · exact .inl ⟨e, entryRound_error hat hclose hfault⟩
    · exact turns_separated hadvances (entryRound_ok hat hclose hrun)

theorem turns_accessRound (hpos : pos < tokens.slots.length) (e : Expr) :
    Turns tokens.slots (accessRound tokens.slots e) pos (· = pos) := by
  have hat := At.of_lt hpos
  cases hdot : takeMark? .dot (tokens.list.drop pos) with
  | none =>
    refine .inr (.inr ⟨e, pos, ?_, rfl⟩)
    rw [accessRound, bind_ok hat.peek, if_neg (front_token_of_none hdot _)]
    rfl
  | some r =>
    obtain ⟨_, hadvance, hrest⟩ := hat.advance_mark hdot
    have hfront := front_token_of_takeMark? hdot tokens.finish
    obtain ⟨fault, hfault⟩ | ⟨x, next, hrun, hadvances⟩ := takes_of_agrees hrest (agrees_name hrest)
    · refine .inl ⟨fault, ?_⟩
      rw [accessRound, bind_ok hat.peek, if_pos hfront, bind_ok hadvance, bind_error hfault]
    · refine .inr (.inl ⟨.field e x, next, ?_, (advances_mark hat hdot).trans hadvances⟩)
      rw [accessRound, bind_ok hat.peek, if_pos hfront, bind_ok hadvance, bind_ok hrun]
      rfl

theorem turns_semicolonRound (hpos : pos < tokens.slots.length) :
    Turns tokens.slots (semicolonRound tokens.slots ()) pos (· = pos) := by
  have hat := At.of_lt hpos
  cases hsemicolon : takeMark? .semicolon (tokens.list.drop pos) with
  | none =>
    refine .inr (.inr ⟨(), pos, ?_, rfl⟩)
    rw [semicolonRound, bind_ok hat.peek, if_neg (front_token_of_none hsemicolon _)]
    rfl
  | some r =>
    obtain ⟨_, hadvance, _⟩ := hat.advance_mark hsemicolon
    refine .inr (.inl ⟨(), pos + 1, ?_, advances_mark hat hsemicolon⟩)
    rw [semicolonRound, bind_ok hat.peek, if_pos (front_token_of_takeMark? hsemicolon _),
      bind_ok hadvance]
    rfl

/-- A round over the statements takes one, unless the script ends behind the semicolons. -/
theorem turns_statementRound (hpos : pos < tokens.slots.length) (hn : tokens.slots.length - pos ≤ n)
    (taken : List Statement) :
    Turns tokens.slots (statementRound tokens.slots n taken) pos (· + 1 = tokens.slots.length) := by
  have hat := At.of_lt hpos
  have hlength := length_slots tokens
  have hfrom := hat.length
  obtain ⟨next, hskip, hnext⟩ := loop_semicolons hat (n := n) (by omega)
  have hless := length_dropWhile_le isSemicolon (tokens.list.drop pos)
  generalize (tokens.list.drop pos).dropWhile isSemicolon = us at hnext hless
  have hleft := hnext.length
  cases us with
  | nil =>
    rw [List.length_nil] at hleft
    exact .inr (.inr ⟨taken, next, statementRound_done hskip hnext, by omega⟩)
  | cons t rest =>
    by_cases hreturned : taken.getLast?.any (·.action.isReturn) = true
    · exact .inl ⟨_, statementRound_returned hskip hnext hreturned⟩
    have hround := statementRound_statement hskip hnext hreturned
    obtain ⟨e, hfault⟩ | ⟨s, last, hrun, hadvances⟩ :=
      takes_of_agrees hnext (agrees_statement hnext (n := n) (by omega))
    · exact .inl ⟨e, hround.trans (bind_error hfault)⟩
    · have hend := hadvances.place.length
      have hfurther := hadvances.further
      refine .inr (.inl ⟨taken ++ [s], last, hround.trans (bind_ok hrun), ?_⟩)
      exact advances_of_at hat hadvances.place (by omega)

end Rounds

/-- With as many rounds as there are slots left, all readers and rounds make progress. -/
theorem progress_of_lt (hpos : pos < tokens.slots.length) (hn : tokens.slots.length - pos ≤ n) :
    Progress tokens.slots n pos := by
  have hat := At.of_lt hpos
  have hlength := length_slots tokens
  have hleft := hat.length
  have below : (tokens.list.drop pos).length < n := by omega
  have hexpr : ∀ {pos us}, us.length < n → At tokens pos us →
      Agrees tokens (expr tokens.slots n pos) (outcome (parseExpr tokens.finish us)) :=
    fun hless hat => agrees_expr hat hless
  have hbinding := takes_of_agrees hat (agrees_binding hexpr below hat)
  have hread := takes_of_agrees hat (agrees_expr hat below)
  have hfields : Agrees tokens (table tokens.slots n (expr tokens.slots n) pos)
      (outcome ((parseFields tokens.finish _ _ below).map (·.map .table))) :=
    (agrees_fields hexpr below hat below).map fun r => ⟨rfl, rfl⟩
  exact {
    statement := takes_of_agrees hat (agrees_statement hat below)
    expression := hread
    primary := takes_of_agrees hat (agrees_primary
      (fun hless hat => agrees_expr hat (Nat.lt_trans hless below)) hat (Nat.le_of_lt below))
    closed := takes_of_agrees hat (agrees_closed hexpr below hat)
    argument := takes_of_agrees hat (agrees_argument hexpr below hat)
    arguments := takes_of_agrees hat (agrees_arguments hexpr below hat (Nat.le_of_lt below))
    table := takes_of_agrees hat hfields
    binding := hbinding
    itemRound := turns_entryRound hpos hread
    fieldRound := turns_entryRound hpos hbinding
    accessRound := turns_accessRound hpos
    semicolonRound := turns_semicolonRound hpos
    statementRound := turns_statementRound hpos hn }

end Cursor

open Cursor

/-- The slots of a text are tokens with one end behind them. With as many rounds as there are slots,
a script is read or refused, and if it is read, then with the cursor at the end; no reader looks
behind it. Wherever the cursor is, every reader and every round of a loop takes tokens, or reports a
fault, or ends the loop. -/
theorem reading_progresses {source : String} {slots : List Slot}
    (h : slotsFrom .start source.toList = .ok slots) :
    (∃ tokens finish, slots = tokens ++ [⟨none, finish⟩] ∧ ∀ s ∈ tokens, s.token ≠ none) ∧
    (∀ n origin, slots.length ≤ n →
      match Chunk.ofText source origin with
      | .ok c => script slots n 0 = .ok (c.statements, slots.length - 1)
      | .error e => script slots n 0 = .error (.fault e)) ∧
    ∀ n pos, pos < slots.length → slots.length - pos ≤ n → Progress slots n pos := by
  rw [slotsFrom_eq] at h
  obtain ⟨tokens, htokens, rfl⟩ := map_eq_ok_iff.1 h
  refine ⟨⟨tokens.list.map Placed.slot, tokens.finish, rfl, ?_⟩, ?_, fun n pos => progress_of_lt⟩
  · exact List.forall_mem_map.2 fun t _ => Option.some_ne_none _
  · intro n origin hn
    have hlength := length_slots tokens
    have hscript : Agrees tokens (script tokens.slots n 0) _ := agrees_script (by omega)
    have hread : Tokens.ofText source = .ok tokens := htokens
    rw [Chunk.ofText, hread]
    simp only [bind, Except.bind]
    revert hscript
    cases parseStatements tokens.finish false tokens.list with
    | error e => exact id
    | ok statements =>
      rintro ⟨pos, hrun, hend⟩
      have hlast : pos = tokens.slots.length - 1 := by
        rw [hlength]
        exact hend.eq_end
      rw [← hlast]
      exact hrun

/-- A call that nothing closes: where its next argument is called for, the cursor stays at the end,
and the reader reports the fault. -/
theorem unclosed_call_refused :
    ∃ slots, slotsFrom .start "assign(a,".toList = .ok slots ∧ slots.length = 5 ∧
      Progress slots 1 4 ∧ ∃ e, script slots 5 0 = .error (.fault e) := by
  have hlength : (slotsFrom .start "assign(a,".toList).map List.length = .ok 5 := by
    have h : ((slotsFrom .start "assign(a,".toList).map List.length).toOption = some 5 := by
      decide +kernel
    revert h
    cases slotsFrom .start "assign(a,".toList with
    | error e =>
      intro h
      cases h
    | ok slots => exact fun h => congrArg _ (Option.some.inj h)
  have hrefused : (Chunk.ofText "assign(a," none).isOk = false := by decide +kernel
  obtain ⟨slots, hslots, hcount⟩ := map_eq_ok_iff.1 hlength
  obtain ⟨_, hscript, hprogress⟩ := reading_progresses hslots
  have hrun := hscript 5 none (Nat.le_of_eq hcount)
  refine ⟨slots, hslots, hcount, hprogress 1 4 (by omega) (by omega), ?_⟩
  revert hrefused hrun
  cases Chunk.ofText "assign(a," none with
  | error e => exact fun _ hrun => ⟨e, hrun⟩
  | ok c =>
    intro h
    cases h

end ScriptBuild.Script
