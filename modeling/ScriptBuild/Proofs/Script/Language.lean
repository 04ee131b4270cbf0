import ScriptBuild.Proofs.Import.Activity
import ScriptBuild.Proofs.Script.Rendering

/-!
# The language of scripts

The scripts that are read consist of exactly the well-formed lists of actions. A call in them is one
of a function that there is, so no script that is read fails for want of a function, nor does any that
is loaded on the way. Main statement: `language_exact`. The last part goes along `Setting.Inside`:
whatever goes on inside of a script that was read belongs to a script that was read.
-/

namespace ScriptBuild

open Script (Builtin Chunk Expr Statement)

/-- The wording of an unknown function is that of no other fault. -/
theorem EvaluationFault.message_ne {fault : EvaluationFault} (h : fault.Among []) (name : String) :
    fault.message ≠ s!"unknown function '{name}'" := by
  have hstart : (s!"unknown function '{name}'").toList.take 3 = ['u', 'n', 'k'] := by
    dsimp only [toString]
    simp (disch := decide) only [String.toList_append, List.append_assoc,
      List.take_append_of_le_length]
    rfl
  intro hsame
  rw [← hsame] at hstart
  revert hstart
  cases fault with
  | unknownFunction => exact absurd h List.not_mem_nil
  | header error =>
    obtain ⟨_, _ | _⟩ | _ := error <;>
    · dsimp only [message, HeaderError.message, toString]
      simp (disch := decide) only [String.toList_append, List.append_assoc,
        List.take_append_of_le_length]
      decide
  -- Three characters tell the other wordings apart.
  | _ =>
    dsimp only [message, toString]
    simp (disch := decide) only [String.toList_append, List.append_assoc,
      List.take_append_of_le_length]
    decide

namespace Setting

variable {setting : Setting} {a b : Activity} {s t u : State} {loads opened : List Request}
  {running : Option (Chunk × Statement)} {e : ModuleError}

/-- The script that is running calls no functions but those that there are. -/
def Known : Activity → Prop
  | .request _ | .file _ => True
  | .script c => ∀ st ∈ c.statements, st.unknown = []
  | .statement _ _ st => st.unknown = []

theorem known_of_ofText {source : String} {origin : Option Path} {c : Chunk}
    (h : Chunk.ofText source origin = .ok c) : Known (.script c) :=
  fun _ => Script.unknown_of_ofText h

theorem mem_of_reaches {f g : Frame} {statements : List Statement} {st : Statement}
    (h : f.Reaches statements s g st u) : st ∈ statements := by
  induction h with
  | first => exact List.mem_cons_self
  | next _ _ ih => exact List.mem_cons_of_mem _ ih

/-- A script that is loaded was read, so it calls no other functions either. -/
theorem Step.known (h : setting.Step a s opened b u) (ha : Known a) : Known b := by
  cases h with
  | resolved | hosted | asked => trivial
  | loaded text =>
    obtain ⟨_, _, _, hchunk, _⟩ := load_eq_ok.1 text
    exact known_of_ofText hchunk
  | reached way => exact ha _ (mem_of_reaches way)

theorem Inside.known (h : setting.Inside a s loads running b u) (ha : Known a) : Known b := by
  induction h with
  | start => exact ha
  | step _ next ih => exact next.known ih

/-- No error is made for want of a function where none is called that there is not. -/
theorem Raises.cause_ne (h : setting.Raises a s e t) (ha : Known a) (name : String) :
    e.cause ≠ .evaluation s!"unknown function '{name}'" := by
  intro hcause
  cases h with
  | cycle | nowhere | unread | unparsed => cases hcause
  | wrong fault among =>
    rw [show Statement.unknown _ = [] from ha] at among
    exact fault.message_ne among name (ErrorCause.evaluation.inj hcause)

/-- What fails inside of scripts that were read does not fail for want of a function. -/
theorem Fails.cause_ne (h : setting.Fails a s e t) (ha : Known a) (name : String) :
    e.cause ≠ .evaluation s!"unknown function '{name}'" := by
  obtain ⟨loads, running, b, u, e₀, v, inside, raises⟩ := exists_raises h
  obtain ⟨rfl, _⟩ := inside.error_eq raises h
  exact raises.cause_ne (inside.known ha) name

end Setting

namespace Script

/-- The lists of actions that scripts can consist of, whatever the text, are exactly the well-formed
ones, and each is read back from its own script. No script that was read, no request and no look-up
among the modules of the loader fails because a function is unknown, whatever is loaded on the
way. -/
theorem language_exact :
    (∀ actions, (∃ source origin c, Chunk.ofText source origin = .ok c ∧
      c.statements.map (·.action) = actions) ↔ WellFormed actions) ∧
    (∀ actions origin, (∃ c, Chunk.ofText (render actions) origin = .ok c ∧
      c.statements.map (·.action) = actions) ↔ WellFormed actions) ∧
    ∀ (setting : Setting) (s t : State) (e : ModuleError) (name : String),
      (∀ source origin c, Chunk.ofText source origin = .ok c →
        setting.runChunk c s = (.error (.failed e), t) →
        e.cause ≠ .evaluation s!"unknown function '{name}'") ∧
      (∀ r, setting.requireModule r s = (.error (.failed e), t) →
        e.cause ≠ .evaluation s!"unknown function '{name}'") ∧
      ∀ specifier, setting.importOwn specifier s = (.error (.failed e), t) →
        e.cause ≠ .evaluation s!"unknown function '{name}'" := by
  refine ⟨fun actions => ⟨?_, fun h => ?_⟩, fun actions origin => ⟨?_, fun h => ?_⟩,
    fun setting s t e name => ⟨?_, ?_, ?_⟩⟩
  · rintro ⟨source, origin, c, hread, rfl⟩
    exact wellFormed_of_ofText hread
  · obtain ⟨c, hread, hactions⟩ := actions_of_render h none
    exact ⟨_, none, c, hread, hactions⟩
  · rintro ⟨c, hread, rfl⟩
    exact wellFormed_of_ofText hread
  · exact actions_of_render h origin
  · intro source origin c hread hrun
    have hfails : setting.Fails (.script c) s e t := hrun
    exact hfails.cause_ne (Setting.known_of_ofText hread) name
  · intro r hrequire
    have hfails : setting.Fails (.request r) s e t := hrequire
    exact hfails.cause_ne trivial name
  · intro specifier hown
    rw [Setting.importOwn_eq] at hown
    obtain ⟨_, p, _, hrun⟩ := Setting.ownModule_eq_error.1 hown
    have hfails : setting.Fails (.file p) s e t := Setting.fails_file.2 hrun
    exact hfails.cause_ne trivial name

/-- A call with a table and a quote in it is read back. A script that is read and asks for a name that
is missing fails for that; a chunk that no text spells fails for want of the function. -/
theorem call_read_back :
    let call := Expr.call "assign" [.table [("a", .int (-5)), ("b", .str "\"\n")], .name "t"]
    let actions := [Action.evaluate (.field call "a"), .return (.require "m")]
    let setting : Setting := ⟨FileSystem.ofEntries ⟨"/"⟩ [], ⟨[], "t"⟩, [], .checked⟩
    let unread : Chunk := ⟨none, "f()\n", [⟨.evaluate (.call "f" []), .start⟩]⟩
    (∃ c, Chunk.ofText (render actions) none = .ok c ∧ c.statements.map (·.action) = actions) ∧
      (∃ c e t, Chunk.ofText "return f\n" none = .ok c ∧
        setting.runChunk c .empty = (.error (.failed e), t) ∧
        e.cause ≠ .evaluation "unknown function 'f'") ∧
      ∃ e t, setting.runChunk unread .empty = (.error (.failed e), t) ∧
        e.cause = .evaluation "unknown function 'f'" := by
  intro call actions setting unread
  have hvalues : ∀ f ∈ [("a", Expr.int (-5)), ("b", .str "\"\n")], f.2.WellFormed :=
    List.forall_mem_cons.2 ⟨.int (by decide), List.forall_mem_singleton.2 (.str _)⟩
  have hcall : call.WellFormed := .call (by decide) (List.forall_mem_cons.2
    ⟨.table (by decide) hvalues, List.forall_mem_singleton.2 (.name (by decide))⟩)
  have hactions : WellFormed actions := by
    refine ⟨List.forall_mem_cons.2 ⟨?_, List.forall_mem_singleton.2 (.return (.require _))⟩, ?_⟩
    · exact .evaluate (.field hcall (by decide)) (.field (.call _ _) _)
    · exact List.forall_mem_singleton.2 rfl
  have hfails : ((Chunk.ofText "return f\n" none).toOption.bind
      fun c => Setting.failure? (setting.runChunk c .empty).1).isSome = true := by
    decide +kernel
  obtain ⟨c, hread⟩ : ∃ c, Chunk.ofText "return f\n" none = .ok c := by
    cases hchunk : Chunk.ofText "return f\n" none with
    | error error =>
      rw [hchunk] at hfails
      cases hfails
    | ok c => exact ⟨c, rfl⟩
  rw [hread] at hfails
  obtain ⟨e, he⟩ := Option.isSome_iff_exists.1 hfails
  have hrun : setting.runChunk c .empty =
      (.error (.failed e), (setting.runChunk c .empty).2) :=
    Prod.ext (Setting.eq_failed_of_failure? he) rfl
  have hcause := (language_exact.2.2 setting .empty _ e "f").1 "return f\n" none c hread hrun
  have hunread : setting.runChunk unread .empty =
      (.error (.failed (.evaluation "unknown function 'f'" (some ⟨⟨"<string>"⟩, .start⟩))),
        .empty) := by
    rw [Setting.runChunk_eq]
    rfl
  exact ⟨(language_exact.2.1 actions none).2 hactions, ⟨c, e, _, hread, hrun, hcause⟩,
    _, _, hunread, rfl⟩

end Script

end ScriptBuild
