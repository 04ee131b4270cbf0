import ScriptBuild.FileSystem.Build
import ScriptBuild.Proofs.Import.Activity

/-!
# Where errors point

An error of a script that has a file points at a file and a position in it. A text that does not
parse is pointed at where it fails to; any other error points at the innermost statement that was
running when it was made. Main statement: `errors_point_innermost`.
-/

namespace ScriptBuild.Setting

open Script (Chunk Statement)

variable {setting : Setting} {a b : Activity} {s t u v : State} {e e₀ : ModuleError}
  {loads : List Request} {running : Option (Chunk × Statement)} {c d : Chunk} {st : Statement}

/-- Around a request or a file inside of a script there is a statement that makes the request. -/
theorem Inside.exists_statement (h : setting.Inside (.script c) s loads running b u) :
    (∃ x, running = some x) ∨ b = .script c ∨ ∃ locals st, b = .statement c locals st := by
  induction h with
  | start => exact .inr (.inl rfl)
  | @step loads opened running b b' u v _ next ih =>
    rcases ih with ⟨x, rfl⟩ | rfl | ⟨locals, st, rfl⟩
    · cases b with
      | statement d locals st => exact .inl ⟨(d, st), rfl⟩
      | request | file | script => exact .inl ⟨x, rfl⟩
    · cases next with
      | reached => exact .inr (.inr ⟨_, _, rfl⟩)
    · exact .inl ⟨(c, st), rfl⟩

/-- Inside of something that has a file, everything has one. -/
theorem Inside.origin (h : setting.Inside a s loads running b u) (ha : a.origin? ≠ none) :
    b.origin? ≠ none ∧ ∀ d st, running = some (d, st) → d.origin ≠ none := by
  induction h with
  | start => exact ⟨ha, fun d st h => by cases h⟩
  | @step loads opened running b b' u v _ next ih =>
    obtain ⟨hb, hrunning⟩ := ih
    refine ⟨fun h => hb (next.origin h), fun d st h => ?_⟩
    cases b with
    | statement d' locals st' =>
      cases h
      exact hb
    | request | file | script => exact hrunning d st h

/-- An error that is no syntax error points at the innermost statement, when it is made or when it
comes out of the request that this makes. -/
theorem Raises.location (h : setting.Raises b u e₀ v)
    (inside : setting.Inside (.script c) s loads running b u) (horigin : c.origin ≠ none)
    (hcause : ∀ message position, e₀.cause ≠ .parse message position) :
    ∃ d st p, b.innermost running = some (d, st) ∧ d.origin = some p ∧
      e₀.location.or (Activity.place? running) = some ⟨p, st.position⟩ := by
  obtain ⟨hb, hrunning⟩ := inside.origin horigin
  -- Requests and files make errors without a location, which then get that of the statement around.
  have around : (∃ x, running = some x) → b.statement? = none → e₀.location = none →
      ∃ d st p, b.innermost running = some (d, st) ∧ d.origin = some p ∧
        e₀.location.or (Activity.place? running) = some ⟨p, st.position⟩ := by
    rintro ⟨⟨d, st⟩, rfl⟩ hnone hlocation
    obtain ⟨p, hp⟩ := Option.ne_none_iff_exists'.1 (hrunning d st rfl)
    refine ⟨d, st, p, by rw [Activity.innermost, hnone, Option.none_or], hp, ?_⟩
    simp [hlocation, Activity.place?, hp]
  have hstatement := inside.exists_statement
  cases h with
  | cycle | nowhere | unread =>
    refine around ?_ rfl rfl
    rcases hstatement with hsome | h | ⟨_, _, h⟩
    · exact hsome
    · cases h
    · cases h
  | unparsed => exact absurd rfl (hcause _ _)
  | @wrong d locals st u v fault =>
    obtain ⟨p, hp⟩ := Option.ne_none_iff_exists'.1 hb
    have hd : d.origin = some p := hp
    refine ⟨d, st, p, rfl, hd, ?_⟩
    show (some (SourceLocation.mk (d.origin.getD ⟨"<string>"⟩) st.position)).or _ = _
    rw [hd]
    rfl

/-- The error points at the place where it was made: at the position at which a text does not parse,
in the file that was being read, and otherwise at the innermost statement that was running. -/
structure Points (setting : Setting) (b : Activity) (running : Option (Chunk × Statement))
    (e : ModuleError) : Prop where
  parse : ∀ message position, e.cause = .parse message position →
    ∃ p loc source error, b = .file p ∧ setting.disk.readFile p = .ok (loc, source) ∧
      Chunk.ofText source (some p) = .error error ∧ e.location = some ⟨p, error.position⟩
  other : (∀ message position, e.cause ≠ .parse message position) →
    ∃ d st p, b.innermost running = some (d, st) ∧ d.origin = some p ∧
      e.location = some ⟨p, st.position⟩

theorem Points.isSome (h : setting.Points b running e) : e.location.isSome = true := by
  by_cases hcause : ∃ message position, e.cause = .parse message position
  · obtain ⟨message, position, hparse⟩ := hcause
    obtain ⟨_, _, _, _, _, _, _, hlocation⟩ := h.parse message position hparse
    rw [hlocation]
    rfl
  · obtain ⟨_, _, _, _, _, hlocation⟩ := h.other fun message position hparse =>
      hcause ⟨message, position, hparse⟩
    rw [hlocation]
    rfl

/-- What became of an error on the way out of a script points at the place where it was made. -/
theorem Raises.points (h : setting.Raises b u e₀ v)
    (inside : setting.Inside (.script c) s loads running b u) (horigin : c.origin ≠ none)
    (hcause : e.cause = e₀.cause)
    (hlocation : e.location = e₀.location.or (Activity.place? running)) :
    setting.Points b running e where
  parse message position hparse := by
    rw [hcause] at hparse
    cases h with
    | cycle | nowhere | unread | wrong => cases hparse
    | unparsed text chunk => exact ⟨_, _, _, _, rfl, text, chunk, hlocation⟩
  other hother := by
    rw [hcause] at hother
    rw [hlocation]
    exact h.location inside horigin hother

/-- A script that has a file and fails has an error with a location. If a text does not parse, this is
the position in its file at which it fails to. Otherwise it is the file and the position of the
innermost statement that was running when the error was made, be that statement wrong itself or the
one that asked for what could not be found, read or loaded. An error that has a location keeps it on
the whole way out, through all the requests around it. -/
theorem errors_point_innermost {file : Path} (horigin : c.origin = some file)
    (h : setting.runChunk c s = (.error (.failed e), t)) :
    e.location.isSome = true ∧
    (∃ loads running b u e₀ v,
      setting.Inside (.script c) s loads running b u ∧ setting.Raises b u e₀ v) ∧
    (∀ loads running b u e₀ v,
      setting.Inside (.script c) s loads running b u → setting.Raises b u e₀ v →
      e.cause = e₀.cause ∧ setting.Points b running e) ∧
    ∀ loads running b u e' t' loc, setting.Inside (.script c) s loads running b u →
      setting.Fails b u e' t' → e'.location = some loc → e.location = some loc := by
  have failed : setting.Fails (.script c) s e t := h
  have hfile : c.origin ≠ none := by
    rw [horigin]
    exact Option.some_ne_none file
  have carried : ∀ loads running b u e' t', setting.Inside (.script c) s loads running b u →
      setting.Fails b u e' t' →
      e.cause = e'.cause ∧ e.location = e'.location.or (Activity.place? running) := by
    intro loads running b u e' t' inside inner
    obtain ⟨rfl, -⟩ := Fails.unique failed (inside.fails inner)
    exact ⟨rfl, rfl⟩
  have made : ∀ loads running b u e₀ v,
      setting.Inside (.script c) s loads running b u → setting.Raises b u e₀ v →
      e.cause = e₀.cause ∧ setting.Points b running e := by
    intro loads running b u e₀ v inside raises
    obtain ⟨hcause, hlocation⟩ := carried _ _ _ _ _ _ inside raises.fails
    exact ⟨hcause, raises.points inside hfile hcause hlocation⟩
  have inner := exists_raises failed
  refine ⟨?_, inner, made, fun loads running b u e' t' loc inside hb hloc => ?_⟩
  · obtain ⟨loads, running, b, u, e₀, v, inside, raises⟩ := inner
    exact (made loads running b u e₀ v inside raises).2.isSome
  · rw [(carried _ _ _ _ _ _ inside hb).2, hloc]
    rfl

/-- A module that is nowhere is asked for in a table, in the second line of a script under a template
that others ask for. The error points there, and not at the requests around it. -/
theorem missing_module_located :
    let disk := FileSystem.ofEntries ⟨"/"⟩
      [(⟨"/lib/a.t"⟩, .file (.text "return require \"host\"\n")),
        (⟨"/host.t"⟩, .file (.text "local x = 1\n  return \x7b y = require \"gone\" \x7d\n"))]
    let setting : Setting := ⟨disk, ⟨[⟨"/lib"⟩], "t"⟩, defaultTemplates, .checked⟩
    ∃ c, Chunk.ofText "return require \"a\"\n" (some ⟨"/main.t"⟩) = .ok c ∧
      c.origin = some ⟨"/main.t"⟩ ∧
      ∃ e t, setting.runChunk c .empty = (.error (.failed e), t) ∧
        e.location = some ⟨⟨"./host.t"⟩, ⟨2, 3⟩⟩ ∧
        ∃ loads running b u e₀ v, setting.Inside (.script c) .empty loads running b u ∧
          setting.Raises b u e₀ v ∧ setting.Points b running e := by
  intro disk setting
  have hlocation : ((Chunk.ofText "return require \"a\"\n" (some ⟨"/main.t"⟩)).toOption.bind
      fun c => (failure? (setting.runChunk c .empty).1).bind (·.location)) =
        some ⟨⟨"./host.t"⟩, ⟨2, 3⟩⟩ := by
    decide +kernel
  rcases hchunk : Chunk.ofText "return require \"a\"\n" (some ⟨"/main.t"⟩) with error | c
  · rw [hchunk] at hlocation
    cases hlocation
  · have horigin := (Chunk.ofText_of_ofText hchunk none).1
    rw [hchunk] at hlocation
    rcases hrun : setting.runChunk c .empty with ⟨outcome, t⟩
    change (failure? (setting.runChunk c .empty).1).bind _ = _ at hlocation
    rw [hrun] at hlocation
    obtain ⟨e, he, hloc⟩ := Option.bind_eq_some_iff.1 hlocation
    have failed : setting.runChunk c .empty = (.error (.failed e), t) :=
      hrun.trans (congrArg (·, t) (eq_failed_of_failure? he))
    obtain ⟨_, ⟨loads, running, b, u, e₀, v, inside, raises⟩, made, _⟩ :=
      errors_point_innermost horigin failed
    exact ⟨c, rfl, horigin, e, t, failed, hloc, loads, running, b, u, e₀, v, inside, raises,
      (made loads running b u e₀ v inside raises).2⟩

end ScriptBuild.Setting
