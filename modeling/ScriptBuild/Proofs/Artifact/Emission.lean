import ScriptBuild.Artifact
import ScriptBuild.Machine.Plain
import ScriptBuild.Proofs.Script.Spelling

/-!
# Emitting symbols

A library that builds objects keeps a table of names: a name is declared as a function or as data, and
then defined. `ObjectModule.NameTable` says what is known of it, for the names that a script can spell.
Main statement: `NameTable.emit_eq`, by which such symbols are emitted unless a name is repeated, and
the first repetition decides the error.
-/

namespace ScriptBuild

open Script (isIdentifier)

/-- The symbols are at fault, not the machine. -/
def ObjectError.OfSymbols : ObjectError → Prop
  | .duplicate _ | .incompatible _ | .refused _ => True
  | .target _ => False

instance : DecidablePred ObjectError.OfSymbols
  | .duplicate _ | .incompatible _ | .refused _ => .isTrue trivial
  | .target _ => .isFalse id

/-- The symbols of the artefact are at fault, not making, linking or writing it. -/
def ArtifactError.OfSymbols : ArtifactError → Prop
  | .object e => e.OfSymbols
  | .archiver _ | .linker _ _ | .write _ _ => False

namespace Exports

theorem get?_concat (seen : Exports) (e : Export) (x : String) :
    get? (seen ++ [e]) x = (get? seen x).or (if x = e.name then some e.value else none) := by
  unfold get?
  rw [List.find?_append]
  cases List.find? (fun e => e.name == x) seen with
  | some found => rfl
  | none =>
    by_cases hx : x = e.name
    · simp [hx]
    · have hne : (e.name == x) = false := beq_eq_false_iff_ne.2 (Ne.symm hx)
      simp [hx, hne]

end Exports

namespace ObjectModule

/-- What is known of a library that builds objects. Of names that are no identifiers it need not do
anything in particular. -/
structure NameTable (M : ObjectModule) where
  /-- What a name was declared as. -/
  kind? : M.State → String → Option SymbolKind
  /-- The name was defined. -/
  defined : M.State → String → Bool
  start_ok : ∀ name optimize, ∃ s, M.start name optimize = .ok s ∧ (∀ x, kind? s x = none) ∧
    ∀ x, defined s x = false
  /-- A name is not declared as two kinds of symbols. -/
  declare_error : ∀ s x k k', kind? s x = some k' → k' ≠ k → M.declare s x k = .error (.incompatible x)
  declare_ok : ∀ s x k, isIdentifier x.toList = true → (∀ k', kind? s x = some k' → k' = k) →
    ∃ s', M.declare s x k = .ok s' ∧ (∀ y, kind? s' y = if y = x then some k else kind? s y) ∧
      ∀ y, defined s' y = defined s y
  /-- A name is defined once, as what it was declared as. -/
  define_error : ∀ s x c, kind? s x = some (Constant.kind c) → defined s x = true →
    M.define s x c = .error (.duplicate x)
  define_ok : ∀ s x c, isIdentifier x.toList = true → kind? s x = some (Constant.kind c) →
    defined s x = false →
    ∃ s', M.define s x c = .ok s' ∧ (∀ y, kind? s' y = kind? s y) ∧
      ∀ y, defined s' y = (decide (y = x) || defined s y)
  /-- An object is made once all that was declared is defined. -/
  finish_ok : ∀ s, (∀ x, (kind? s x).isSome = true →
    isIdentifier x.toList = true ∧ defined s x = true) → ∃ object, M.finish s = .ok object

/-- The first symbol that repeats the name of an earlier one: as another kind it is refused when it is
declared, else when it is defined. -/
def repeated? : Exports → Exports → Option ObjectError
  | _, [] => none
  | seen, e :: es =>
    match seen.get? e.name with
    | some c => some (if c.kind = e.value.kind then .duplicate e.name else .incompatible e.name)
    | none => repeated? (seen ++ [e]) es

theorem repeated?_eq_none_iff {seen es : Exports} (h : seen.names.Nodup) :
    repeated? seen es = none ↔ (seen.names ++ es.names).Nodup := by
  induction es generalizing seen with
  | nil => simpa [repeated?, Exports.names] using h
  | cons e es ih =>
    have found : seen.get? e.name = none ↔ e.name ∉ seen.names := by
      simp [Exports.get?, Exports.names]
    have shift : seen.names ++ Exports.names (e :: es) =
        Exports.names (seen ++ [e]) ++ Exports.names es := by
      simp [Exports.names]
    unfold repeated?
    cases hg : seen.get? e.name with
    | some c =>
      simp only [reduceCtorEq, false_iff]
      intro nodup
      have : e.name ∉ seen.names := by
        rw [List.nodup_append] at nodup
        exact fun hm => nodup.2.2 _ hm _ (by simp [Exports.names]) rfl
      rw [found.2 this] at hg
      cases hg
    | none =>
      have fresh := found.1 hg
      have : (Exports.names (seen ++ [e])).Nodup := by
        simp only [Exports.names, List.map_append, List.map_cons, List.map_nil]
        refine List.nodup_append.2 ⟨h, by simp, fun a ha b hb => ?_⟩
        rintro rfl
        rw [List.mem_singleton] at hb
        exact fresh (hb ▸ ha)
      rw [shift]
      exact ih this

theorem ofSymbols_of_repeated? {seen es : Exports} {e : ObjectError}
    (h : repeated? seen es = some e) : e.OfSymbols := by
  induction es generalizing seen with
  | nil => cases h
  | cons y es ih =>
    rw [repeated?] at h
    split at h
    · cases h
      split <;> trivial
    · exact ih h

namespace NameTable

variable {M : ObjectModule} (N : M.NameTable)

/-- The table of names tells the symbols that were emitted. -/
structure Tells (s : M.State) (seen : Exports) : Prop where
  kind : ∀ x, N.kind? s x = (seen.get? x).map Constant.kind
  defined : ∀ x, N.defined s x = (seen.get? x).isSome
  named : ∀ x ∈ seen.names, isIdentifier x.toList = true

variable {N} {s : M.State} {seen : Exports} {e : Export}

/-- A name that was emitted is refused: as another kind of symbol when it is declared, else when it is
defined. -/
theorem emitSymbol_repeated (h : N.Tells s seen) (hname : isIdentifier e.name.toList = true)
    {c : Constant} (hc : seen.get? e.name = some c) :
    M.emitSymbol s e =
      .error (if c.kind = e.value.kind then .duplicate e.name else .incompatible e.name) := by
  have hkind : N.kind? s e.name = some c.kind := by rw [h.kind, hc]; rfl
  have hdefined : N.defined s e.name = true := by rw [h.defined, hc]; rfl
  unfold emitSymbol
  by_cases hsame : c.kind = e.value.kind
  · rw [if_pos hsame]
    have hall : ∀ k, N.kind? s e.name = some k → k = e.value.kind := by
      intro k hk
      rw [hkind] at hk
      rw [← Option.some.inj hk]
      exact hsame
    obtain ⟨s', hdeclare, hkind', hkept⟩ := N.declare_ok s e.name e.value.kind hname hall
    rw [hdeclare]
    exact N.define_error s' e.name e.value ((hkind' e.name).trans (if_pos rfl))
      ((hkept e.name).trans hdefined)
  · rw [if_neg hsame, N.declare_error s e.name e.value.kind c.kind hkind hsame]
    rfl

/-- A new name is emitted. -/
theorem emitSymbol_new (h : N.Tells s seen) (hname : isIdentifier e.name.toList = true)
    (hnew : seen.get? e.name = none) :
    ∃ s', M.emitSymbol s e = .ok s' ∧ N.Tells s' (seen ++ [e]) := by
  have hkind : N.kind? s e.name = none := by rw [h.kind, hnew]; rfl
  have hall : ∀ k, N.kind? s e.name = some k → k = e.value.kind := by
    intro k hk
    rw [hkind] at hk
    cases hk
  obtain ⟨s₁, hdeclare, hkind₁, hdefined₁⟩ := N.declare_ok s e.name e.value.kind hname hall
  have hdeclared : N.kind? s₁ e.name = some e.value.kind := (hkind₁ e.name).trans (if_pos rfl)
  have hundefined : N.defined s₁ e.name = false := by rw [hdefined₁, h.defined, hnew]; rfl
  obtain ⟨s₂, hdefine, hkind₂, hdefined₂⟩ :=
    N.define_ok s₁ e.name e.value hname hdeclared hundefined
  refine ⟨s₂, ?_, fun x => ?_, fun x => ?_, fun x hx => ?_⟩
  · unfold emitSymbol
    rw [hdeclare]
    exact hdefine
  · rw [hkind₂, hkind₁, h.kind, Exports.get?_concat]
    by_cases hx : x = e.name
    · rw [if_pos hx, if_pos hx, hx, hnew]
      rfl
    · rw [if_neg hx, if_neg hx, Option.or_none]
  · rw [hdefined₂, hdefined₁, h.defined, Exports.get?_concat]
    by_cases hx : x = e.name
    · simp [hx]
    · simp [hx]
  · rw [Exports.names, List.map_append, List.mem_append] at hx
    rcases hx with hx | hx
    · exact h.named x hx
    · rw [List.mem_singleton.1 hx]
      exact hname

/-- The symbols are emitted one after the other up to the first that repeats a name. -/
theorem foldlM_emitSymbol (h : N.Tells s seen) (exports : Exports)
    (named : ∀ x ∈ exports.names, isIdentifier x.toList = true) :
    (∀ error, repeated? seen exports = some error →
      exports.foldlM M.emitSymbol s = .error error) ∧
    (repeated? seen exports = none →
      ∃ s', exports.foldlM M.emitSymbol s = .ok s' ∧ N.Tells s' (seen ++ exports)) := by
  induction exports generalizing s seen with
  | nil =>
    refine ⟨fun error herror => ?_, fun _ => ⟨s, rfl, ?_⟩⟩
    · cases herror
    · rwa [List.append_nil]
  | cons e es ih =>
    obtain ⟨hname, hmore⟩ := List.forall_mem_cons.1 named
    rw [repeated?, List.foldlM_cons]
    cases hfound : seen.get? e.name with
    | some c =>
      rw [emitSymbol_repeated h hname hfound]
      refine ⟨fun error herror => congrArg _ (Option.some.inj herror), fun hnone => ?_⟩
      cases hnone
    | none =>
      obtain ⟨s', hemit, hs'⟩ := emitSymbol_new h hname hfound
      rw [hemit, List.append_cons seen e es]
      exact ih hs' hmore

/-- All that was declared was defined, so an object is made. -/
theorem Tells.finish (h : N.Tells s seen) : ∃ object, M.finish s = .ok object := by
  refine N.finish_ok s fun x hx => ?_
  rw [h.kind, Option.isSome_map] at hx
  obtain ⟨c, hc⟩ := Option.isSome_iff_exists.1 hx
  obtain ⟨found, hfind, _⟩ := Option.map_eq_some_iff.1 hc
  have hname : found.name = x := by simpa using List.find?_some hfind
  have hin : x ∈ seen.names := hname ▸ List.mem_map_of_mem (List.mem_of_find?_eq_some hfind)
  exact ⟨h.named x hin, (h.defined x).trans hx⟩

/-- The symbols are emitted unless a name is repeated, and then the first repetition is refused. -/
theorem emit_eq (N : M.NameTable) (name : String) {exports : Exports}
    (named : ∀ x ∈ exports.names, isIdentifier x.toList = true) (optimize : Bool) :
    (∀ error, repeated? [] exports = some error → M.emit name exports optimize = .error error) ∧
    (repeated? [] exports = none → ∃ object, M.emit name exports optimize = .ok object) := by
  obtain ⟨s, hstart, hkind, hdefined⟩ := N.start_ok name optimize
  have hempty : N.Tells s [] := ⟨hkind, hdefined, fun x hx => absurd hx List.not_mem_nil⟩
  obtain ⟨hrefused, hemitted⟩ := foldlM_emitSymbol hempty exports named
  unfold emit
  rw [hstart]
  refine ⟨fun error herror => ?_, fun hnone => ?_⟩
  · show (exports.foldlM M.emitSymbol s).bind M.finish = _
    rw [hrefused error herror]
    rfl
  · obtain ⟨t, ht, htells⟩ := hemitted hnone
    obtain ⟨object, hobject⟩ := htells.finish
    refine ⟨object, ?_⟩
    show (exports.foldlM M.emitSymbol s).bind M.finish = _
    rw [ht]
    exact hobject

end NameTable

/-- The library that keeps lists has them as its table of names. -/
def listsTable : lists.NameTable where
  kind? s x := s.1.lookup x
  defined s x := (s.2.get? x).isSome
  start_ok _ _ := ⟨_, rfl, fun _ => rfl, fun _ => rfl⟩
  declare_error s x k k' hkind hne := by simp [lists, hkind, hne]
  declare_ok s x k _ hall := by
    cases hfound : s.1.lookup x with
    | some k' =>
      have heq := hall k' hfound
      refine ⟨s, by simp [lists, hfound, heq], fun y => ?_, fun y => rfl⟩
      split
      · next hy => rw [hy, hfound, heq]
      · rfl
    | none =>
      refine ⟨((x, k) :: s.1, s.2), by simp [lists, hfound], fun y => ?_, fun y => rfl⟩
      rw [List.lookup_cons]
      by_cases hy : y = x
      · simp [hy]
      · rw [beq_eq_false_iff_ne.2 hy, if_neg hy]
  define_error s x c _ hdefined := if_pos hdefined
  define_ok s x c _ _ hdefined := by
    refine ⟨(s.1, s.2 ++ [⟨x, c⟩]), by simp [lists, hdefined], fun y => rfl, fun y => ?_⟩
    rw [Exports.get?_concat]
    by_cases hy : y = x
    · simp [hy]
    · simp [hy]
  finish_ok _ _ := ⟨_, rfl⟩

end ObjectModule

end ScriptBuild
