import Mathlib.Data.List.Nodup
import ScriptBuild.Proofs.Artifact.Emission
import ScriptBuild.Proofs.FileSystem.Temporary

/-!
# Saving, step by step

The symbols are emitted before the format is chosen, and an object that has to be linked stands in a
temporary file meanwhile. Main statements: `performed_save` lists what saving comes to on any machine,
with the file system at every end, also where saving fails; `saving_all_or_nothing` says that no
artefact is saved in part, and that the first repetition of a name decides the error of the symbols
if the library that builds objects has a table of names.
-/

namespace ScriptBuild

open Script (isIdentifier)

/-- The error tells the first symbol that repeats a name: whether the earlier symbol of that name is of
the same kind. -/
def FirstRepetition (exports : Exports) (e : ObjectError) : Prop :=
  ∃ (before : Exports) (x y : Export) (after : Exports), exports = before ++ y :: after ∧
    before.names.Nodup ∧ x ∈ before ∧ x.name = y.name ∧
    e = if x.value.kind = y.value.kind then .duplicate y.name else .incompatible y.name

namespace Exports

theorem get?_of_mem {es : Exports} (h : es.names.Nodup) {e : Export} (he : e ∈ es) :
    es.get? e.name = some e.value := by
  induction es with
  | nil => cases he
  | cons d es ih =>
    obtain ⟨hd, hes⟩ := List.nodup_cons.1 h
    rcases List.mem_cons.1 he with rfl | he
    · simp [get?]
    · have hin : e.name ∈ names es := List.mem_map_of_mem he
      have hne : (d.name == e.name) = false :=
        beq_eq_false_iff_ne.2 fun heq => hd (heq ▸ hin : d.name ∈ names es)
      have hfound := ih hes he
      simpa [get?, List.find?_cons, hne] using hfound

theorem exists_mem_of_get? {es : Exports} {name : String} {c : Constant}
    (h : es.get? name = some c) : ∃ x ∈ es, x.name = name ∧ x.value = c := by
  obtain ⟨x, hfind, hvalue⟩ := Option.map_eq_some_iff.1 h
  have hname := List.find?_some hfind
  exact ⟨x, List.mem_of_find?_eq_some hfind, by simpa using hname, hvalue⟩

/-- A new name keeps the names apart. -/
theorem nodup_concat {es : Exports} (h : es.names.Nodup) {e : Export}
    (hnew : es.get? e.name = none) : (names (es ++ [e])).Nodup := by
  have hout : e.name ∉ names es := by simpa [get?, names] using hnew
  have hnames : names (es ++ [e]) = names es ++ [e.name] := List.map_append
  rw [hnames, ← List.concat_eq_append]
  exact h.concat hout

end Exports

namespace ObjectModule

section Repetition

variable {seen es : Exports} {e : ObjectError}

theorem firstRepetition_of_repeated? (hseen : seen.names.Nodup) (h : repeated? seen es = some e) :
    FirstRepetition (seen ++ es) e := by
  induction es generalizing seen with
  | nil => cases h
  | cons y es ih =>
    rw [repeated?] at h
    cases hfound : seen.get? y.name with
    | some c =>
      rw [hfound] at h
      obtain ⟨x, hx, hname, rfl⟩ := Exports.exists_mem_of_get? hfound
      exact ⟨seen, x, y, es, rfl, hseen, hx, hname, (Option.some.inj h).symm⟩
    | none =>
      rw [hfound] at h
      rw [List.append_cons]
      exact ih (Exports.nodup_concat hseen hfound) h

/-- Names that are new are passed over. -/
theorem repeated?_append {before : Exports} (h : (seen ++ before).names.Nodup) (after : Exports) :
    repeated? seen (before ++ after) = repeated? (seen ++ before) after := by
  induction before generalizing seen with
  | nil => rw [List.append_nil, List.nil_append]
  | cons b before ih =>
    have hnew : seen.get? b.name = none := by
      have hapart : (seen.names ++ b.name :: Exports.names before).Nodup := by
        simpa [Exports.names] using h
      have hout : b.name ∉ seen.names := fun hin =>
        (List.nodup_append.1 hapart).2.2 _ hin _ List.mem_cons_self rfl
      simpa [Exports.get?, Exports.names] using hout
    rw [List.append_cons seen b before] at h ⊢
    rw [List.cons_append, repeated?, hnew]
    exact ih h

/-- The first repetition of a name is found. -/
theorem repeated?_iff : repeated? [] es = some e ↔ FirstRepetition es e := by
  refine ⟨firstRepetition_of_repeated? List.nodup_nil, ?_⟩
  rintro ⟨before, x, y, after, rfl, hdistinct, hx, hname, rfl⟩
  have hfound := Exports.get?_of_mem hdistinct hx
  rw [hname] at hfound
  have hnames : Exports.names ([] ++ before) = before.names := rfl
  rw [repeated?_append (hnames ▸ hdistinct), List.nil_append, repeated?, hfound]

end Repetition

end ObjectModule

namespace Artifact

variable {m : Machine} {disk disk' : FileSystem} {output temp : Path} {exports : Exports}
  {linkFlags : List String} {optimize : Bool} {object : Content} {format : OutputFormat}

/-- The same stands in both file systems. -/
structure Unchanged (disk disk' : FileSystem) : Prop where
  workingDirectory : disk'.workingDirectory = disk.workingDirectory
  lookup : ∀ loc, disk'.lookup? loc = disk.lookup? loc

theorem Unchanged.refl (disk : FileSystem) : Unchanged disk disk :=
  ⟨rfl, fun _ => rfl⟩

/-- With a temporary file, linking is what is done, and all stands as before. -/
theorem linkThrough_of_place (format : OutputFormat) (output : Path) (linkFlags : List String)
    (object : Content) (hplace : m.temporary.place disk = .ok temp) :
    ∃ after, linkThrough m disk format output linkFlags object =
      (link m.toEnvironment format [temp] output linkFlags, after) ∧ Unchanged disk after := by
  obtain ⟨loc, hvacant⟩ := m.temporary.vacant disk temp hplace
  have hmade := hvacant.write (.text "")
  have hwritten : (disk.put loc (.file (.text ""))).write temp object = _ :=
    hvacant.write_again hmade
  have hways := (FileSystem.sameWays_of_write hmade).trans (FileSystem.sameWays_of_write hwritten)
  obtain ⟨hdirectory, hlookup⟩ := hvacant.restored hways fun other hne => by
    rw [FileSystem.lookup?_put_of_ne hne, FileSystem.lookup?_put_of_ne hne]
  refine ⟨_, ?_, hdirectory, hlookup⟩
  rw [linkThrough, hplace]
  dsimp only
  rw [hmade]
  dsimp only
  rw [hwritten]

theorem linkThrough_of_error {cause : OsError} (hplace : m.temporary.place disk = .error cause) :
    linkThrough m disk format output linkFlags object =
      (.error (.write m.temporary.directory cause), disk) := by
  rw [linkThrough, hplace]

/-- Nothing but an object is an artefact without a program that links. -/
theorem link_error {env : Environment} (hformat : format ≠ .object) (objects : List Path) :
    ∃ e, link env format objects output linkFlags = .error e ∧ ¬ e.OfSymbols := by
  cases format with
  | object => exact absurd rfl hformat
  | staticLibrary => exact ⟨_, rfl, id⟩
  | sharedLibrary | executable => exact ⟨_, rfl, id⟩

/-- What is linked is never there afterwards, and all stands as before. -/
theorem linkThrough_error (m : Machine) (disk : FileSystem) (hformat : format ≠ .object)
    (output : Path) (linkFlags : List String) (object : Content) :
    ∃ e after, linkThrough m disk format output linkFlags object = (.error e, after) ∧
      ¬ e.OfSymbols ∧ Unchanged disk after := by
  cases hplace : m.temporary.place disk with
  | error cause => exact ⟨_, disk, linkThrough_of_error hplace, id, .refl disk⟩
  | ok temp =>
    obtain ⟨after, hlink, hunchanged⟩ :=
      linkThrough_of_place format output linkFlags object hplace
    obtain ⟨e, herror, hother⟩ := link_error hformat [temp]
    exact ⟨e, after, hlink.trans (congrArg (·, after) herror), hother, hunchanged⟩

/-- Once there is an object, the format decides how it is saved. -/
theorem save_of_emitted
    (emitted : m.objects.emit (moduleName output) exports optimize = .ok object) :
    save m disk output exports linkFlags optimize =
      if OutputFormat.ofPath output = .object then
        match disk.write output object with
        | .error cause => (.error (.write output cause), disk)
        | .ok written => (.ok (), written)
      else linkThrough m disk (OutputFormat.ofPath output) output linkFlags object := by
  rw [save, emitted]
  cases OutputFormat.ofPath output <;> rfl

/-- What saving comes to. -/
inductive Performed (m : Machine) (disk : FileSystem) (output : Path) (exports : Exports)
    (linkFlags : List String) (optimize : Bool) :
    Except ArtifactError Unit × FileSystem → Prop where
  /-- There is no object. -/
  | refused {e : ObjectError}
      (failed : m.objects.emit (moduleName output) exports optimize = .error e) :
      Performed m disk output exports linkFlags optimize (.error (.object e), disk)
  | unwritten {object : Content} {cause : OsError}
      (emitted : m.objects.emit (moduleName output) exports optimize = .ok object)
      (format : OutputFormat.ofPath output = .object)
      (failed : disk.write output object = .error cause) :
      Performed m disk output exports linkFlags optimize (.error (.write output cause), disk)
  | written {object : Content} {after : FileSystem}
      (emitted : m.objects.emit (moduleName output) exports optimize = .ok object)
      (format : OutputFormat.ofPath output = .object)
      (kept : disk.write output object = .ok after) :
      Performed m disk output exports linkFlags optimize (.ok (), after)
  /-- Linking fails, with or without a temporary file, and all stands as before. -/
  | unlinked {object : Content} {e : ArtifactError} {after : FileSystem}
      (emitted : m.objects.emit (moduleName output) exports optimize = .ok object)
      (format : OutputFormat.ofPath output ≠ .object) (other : ¬ e.OfSymbols)
      (unchanged : Unchanged disk after) :
      Performed m disk output exports linkFlags optimize (.error e, after)

theorem performed_save : Performed m disk output exports linkFlags optimize
    (save m disk output exports linkFlags optimize) := by
  cases hemit : m.objects.emit (moduleName output) exports optimize with
  | error e =>
    rw [save, hemit]
    exact .refused hemit
  | ok object =>
    rw [save_of_emitted hemit]
    by_cases hformat : OutputFormat.ofPath output = .object
    · rw [if_pos hformat]
      cases hwrite : disk.write output object with
      | error cause => exact .unwritten hemit hformat hwrite
      | ok after => exact .written hemit hformat hwrite
    · rw [if_neg hformat]
      obtain ⟨e, after, hlink, hother, hunchanged⟩ :=
        linkThrough_error m disk hformat output linkFlags object
      rw [hlink]
      exact .unlinked hemit hformat hother hunchanged

section Outcome

variable {run : Except ArtifactError Unit × FileSystem}
  (h : Performed m disk output exports linkFlags optimize run)
include h

/-- Saving finds fault with the symbols if emitting them does. -/
theorem Performed.ofSymbols {e : ArtifactError} (herror : run.1 = .error e) (he : e.OfSymbols) :
    ∃ fault, e = .object fault ∧
      m.objects.emit (moduleName output) exports optimize = .error fault := by
  cases h with
  | refused failed =>
    cases herror
    exact ⟨_, rfl, failed⟩
  | unwritten =>
    cases herror
    exact he.elim
  | written => cases herror
  | unlinked _ _ other =>
    cases herror
    exact absurd he other

/-- Saving finds fault with the symbols just when a name is repeated, where the library has a table of
names. -/
theorem Performed.symbols (N : m.objects.NameTable)
    (named : ∀ x ∈ exports.names, isIdentifier x.toList = true) (e : ObjectError) :
    run.1 = .error (.object e) ∧ e.OfSymbols ↔ ObjectModule.repeated? [] exports = some e := by
  obtain ⟨hrefused, hemitted⟩ := N.emit_eq (moduleName output) named optimize
  constructor
  · rintro ⟨herror, he⟩
    obtain ⟨_, ⟨⟩, failed⟩ := h.ofSymbols herror he
    cases hrepeated : ObjectModule.repeated? [] exports with
    | none =>
      obtain ⟨object, hobject⟩ := hemitted hrepeated
      rw [hobject] at failed
      cases failed
    | some first =>
      rw [hrefused first hrepeated] at failed
      cases failed
      rfl
  · intro hrepeated
    refine ⟨?_, ObjectModule.ofSymbols_of_repeated? hrepeated⟩
    have hfailed := hrefused e hrepeated
    cases h with
    | refused failed =>
      rw [hfailed] at failed
      cases failed
      rfl
    | unwritten emitted | written emitted | unlinked emitted =>
      rw [hfailed] at emitted
      cases emitted

/-- Where saving fails, all stands as before. -/
theorem Performed.unchanged {e : ArtifactError} (herror : run.1 = .error e) :
    Unchanged disk run.2 := by
  cases h with
  | refused | unwritten => exact .refl disk
  | written => cases herror
  | unlinked _ _ _ unchanged => exact unchanged

/-- What is saved is an object, at the place that its path leads to. -/
theorem Performed.saved (hok : run.1 = .ok ()) : OutputFormat.ofPath output = .object ∧
    ∃ loc object, disk.locate .create output = .ok loc ∧ run.2.locate .reach output = .ok loc ∧
      m.objects.emit (moduleName output) exports optimize = .ok object ∧
      run.2.lookup? loc = some (.file object) ∧
      ∀ other, other ≠ loc → run.2.lookup? other = disk.lookup? other := by
  cases h with
  | refused | unwritten | unlinked => cases hok
  | @written object after emitted format kept =>
    obtain ⟨loc, hloc, hreach, hfound⟩ := FileSystem.locate_reach_of_write kept
    refine ⟨format, loc, object, hloc, hreach, emitted, hfound, fun other hne => ?_⟩
    by_contra hchanged
    have hother := FileSystem.locate_of_write kept hchanged
    rw [hloc] at hother
    exact hne (Except.ok.inj hother).symm

end Outcome

/-- Saving is all or nothing, whatever library builds the object and wherever temporary files are
made. Whatever the error is, the same stands in the file system as before. Only an object is saved, and
then nothing but the regular file that its path leads to has changed. Symbols with plain names are
refused by a library with a table of names just when a name is repeated, and the first repetition
decides how. -/
theorem saving_all_or_nothing (m : Machine) (disk : FileSystem) (output : Path)
    (exports : Exports) (linkFlags : List String) (optimize : Bool) :
    let run := save m disk output exports linkFlags optimize
    (∀ _ : m.objects.NameTable, (∀ x ∈ exports.names, isIdentifier x.toList = true) →
      (∀ e, run.1 = .error e ∧ e.OfSymbols ↔
        ∃ first, FirstRepetition exports first ∧ e = .object first) ∧
      ((∃ e, run.1 = .error e ∧ e.OfSymbols) ↔ ¬ exports.names.Nodup)) ∧
    (∀ e, run.1 = .error e → Unchanged disk run.2) ∧
    (run.1 = .ok () → OutputFormat.ofPath output = .object ∧
      ∃ loc object, disk.locate .create output = .ok loc ∧ run.2.locate .reach output = .ok loc ∧
        m.objects.emit (moduleName output) exports optimize = .ok object ∧
        run.2.lookup? loc = some (.file object) ∧
        ∀ other, other ≠ loc → run.2.lookup? other = disk.lookup? other) := by
  intro run
  have h : Performed m disk output exports linkFlags optimize run := performed_save
  refine ⟨fun N named => ?_, fun e => h.unchanged, h.saved⟩
  have hfirst : ∀ e, run.1 = .error e ∧ e.OfSymbols ↔
      ∃ first, ObjectModule.repeated? [] exports = some first ∧ e = .object first := by
    intro e
    constructor
    · rintro ⟨herror, he⟩
      obtain ⟨fault, rfl, _⟩ := h.ofSymbols herror he
      exact ⟨fault, (h.symbols N named fault).1 ⟨herror, he⟩, rfl⟩
    · rintro ⟨first, hrepeated, rfl⟩
      exact (h.symbols N named first).2 hrepeated
  constructor
  · simpa only [ObjectModule.repeated?_iff] using hfirst
  · have hdistinct : ObjectModule.repeated? [] exports = none ↔ exports.names.Nodup :=
      ObjectModule.repeated?_eq_none_iff List.nodup_nil
    rw [← hdistinct, ← Ne, Option.ne_none_iff_exists']
    constructor
    · rintro ⟨e, he⟩
      obtain ⟨first, hrepeated, _⟩ := (hfirst e).1 he
      exact ⟨first, hrepeated⟩
    · rintro ⟨first, hrepeated⟩
      exact ⟨_, (hfirst _).2 ⟨first, hrepeated, rfl⟩⟩

/-- An archive of two symbols is refused for the first repetition, though another name is repeated
behind it, and without repetitions for want of a program that makes archives. -/
theorem archive_not_saved :
    let disk := FileSystem.ofEntries ⟨"/work"⟩ [(⟨"/tmp"⟩, .directory)]
    let symbols : Exports := [⟨"x", .int 1⟩, ⟨"y", .str "a"⟩]
    let repeated := symbols ++ [⟨"y", .int 2⟩, ⟨"x", .int 3⟩]
    let run exports := save (.plain {}) disk ⟨"lib.a"⟩ exports [] true
    (run repeated).1 = .error (.object (.incompatible "y")) ∧
      (run symbols).1 = .error (.archiver .notFound) ∧ Unchanged disk (run symbols).2 := by
  intro disk symbols repeated run
  have hrepeated : FirstRepetition repeated (.incompatible "y") :=
    ⟨symbols, ⟨"y", .str "a"⟩, ⟨"y", .int 2⟩, [⟨"x", .int 3⟩], rfl, by decide, by decide, rfl, rfl⟩
  have hsaving exports := saving_all_or_nothing (.plain {}) disk ⟨"lib.a"⟩ exports [] true
  have harchiver : (run symbols).1 = .error (.archiver .notFound) := by
    decide +kernel
  obtain ⟨hsymbols, _⟩ := hsaving repeated
  obtain ⟨_, hunchanged, _⟩ := hsaving symbols
  have hrefused := ((hsymbols ObjectModule.listsTable (by decide)).1 _).2 ⟨_, hrepeated, rfl⟩
  exact ⟨hrefused.1, harchiver, hunchanged _ harchiver⟩

end Artifact

end ScriptBuild
