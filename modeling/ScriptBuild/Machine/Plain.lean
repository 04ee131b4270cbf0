import ScriptBuild.Machine
import ScriptBuild.FileSystem.Place

/-!
# A plain machine

Libraries to run the program with where no other ones are at hand. The object holds the names and the
values of the symbols one after the other, which no program that links understands; a temporary file
gets the first free one of numbered names in `/tmp`.
-/

namespace ScriptBuild

/-- The bytes of a symbol: its name and its value, with a zero byte after each text. -/
def Export.bytes (e : Export) : List UInt8 :=
  e.name.toUTF8.toList ++ 0 :: match e.value with
  | .int n => (List.range 8).map fun i => (n.toUInt64 >>> (8 * UInt64.ofNat i)).toUInt8
  | .str s => s.toUTF8.toList ++ [0]

/-- A library that keeps the declared names and the defined symbols in lists. The object begins with a
byte that no text holds. -/
def ObjectModule.lists : ObjectModule where
  State := List (String × SymbolKind) × Exports
  start _ _ := .ok ([], [])
  declare s x k :=
    match s.1.lookup x with
    | some k' => if k' = k then .ok s else .error (.incompatible x)
    | none => .ok ((x, k) :: s.1, s.2)
  define s x c :=
    if (s.2.get? x).isSome then .error (.duplicate x) else .ok (s.1, s.2 ++ [⟨x, c⟩])
  finish s := .ok (.binary (0xFF :: s.2.flatMap Export.bytes))

namespace FileSystem

variable {fs fs' : FileSystem} {p : Path} {loc : Location}

/-- Nothing stands at a path, in a directory. -/
def isVacant (fs : FileSystem) (p : Path) : Bool :=
  match fs.locate .create p with
  | .ok loc =>
    fs.entryLocation? p = some loc && loc ≠ [] && loc.all Path.isName &&
      fs.isDirectoryAt loc.dropLast && fs.entries.all fun x => ! loc.isPrefixOf x.1
  | .error _ => false

/-- No entry stands at or below the location. -/
theorem entries_all_iff (hne : loc ≠ []) :
    (fs.entries.all fun x => ! loc.isPrefixOf x.1) = true ↔
      ∀ other, loc <+: other → fs.lookup? other = none := by
  simp only [List.all_eq_true, Bool.not_eq_true', ← Bool.not_eq_true, List.isPrefixOf_iff_prefix]
  constructor
  · intro hentries other hbelow
    have hother : other ≠ [] := by
      rintro rfl
      exact hne (List.prefix_nil.1 hbelow)
    rw [lookup?, if_neg hother]
    refine List.lookup_eq_none_iff.2 fun x hx => bne_iff_ne.2 ?_
    rintro rfl
    exact hentries x hx hbelow
  · intro hempty x hx hbelow
    have hother : x.1 ≠ [] := by
      intro hnil
      exact hne (List.prefix_nil.1 (hnil ▸ hbelow))
    have hnone := hempty x.1 hbelow
    rw [lookup?, if_neg hother] at hnone
    exact bne_iff_ne.1 (List.lookup_eq_none_iff.1 hnone x hx) rfl

theorem isVacant_iff : fs.isVacant p = true ↔ ∃ loc, fs.Vacant p loc := by
  unfold isVacant
  constructor
  · intro h
    split at h
    · next loc hloc =>
      simp only [Bool.and_eq_true, decide_eq_true_eq] at h
      obtain ⟨⟨⟨⟨hplace, hne⟩, hname⟩, hdir⟩, hempty⟩ := h
      exact ⟨loc, hloc, hplace, hname, hdir, (entries_all_iff hne).1 hempty⟩
    · cases h
  · rintro ⟨loc, h⟩
    have hne : loc ≠ [] := by
      rintro rfl
      have hroot := h.empty [] List.prefix_rfl
      cases hroot
    rw [h.way]
    simp only [Bool.and_eq_true, decide_eq_true_eq]
    exact ⟨⟨⟨⟨h.place, hne⟩, h.named⟩, h.directory⟩, (entries_all_iff hne).2 h.empty⟩

theorem AlikeOn.isVacant_eq {kept : Path → Prop} (h : AlikeOn kept fs fs') :
    fs'.isVacant = fs.isVacant := by
  funext p
  rw [Bool.eq_iff_iff, isVacant_iff, isVacant_iff]
  constructor
  · rintro ⟨loc, hvacant⟩
    exact ⟨loc, hvacant.alike h.symm⟩
  · rintro ⟨loc, hvacant⟩
    exact ⟨loc, hvacant.alike h⟩

end FileSystem

namespace TemporaryFiles

/-- The paths tried for a temporary file. -/
def candidates : List Path :=
  (List.range 100).map fun n => ⟨s!"/tmp/scriptc-{n}.o"⟩

/-- Temporary files at the first candidate that is free. -/
def numbered : TemporaryFiles where
  directory := ⟨"/tmp"⟩
  place disk :=
    match candidates.find? disk.isVacant with
    | some p => .ok p
    | none => .error (.other "too many temporary files exist")
  vacant disk temp h := by
    split at h
    · next p hp =>
      cases h
      exact FileSystem.isVacant_iff.1 (List.find?_some hp)
    · cases h
  alike disk disk' h := by
    rw [h.isVacant_eq]

end TemporaryFiles

/-- The directory for the data of the user: `XDG_DATA_HOME` if it is absolute, or else `.local/share`
in `HOME`, if that is set. -/
def userDataDirectory (dataHome home : Option String) : Option Path :=
  match (dataHome.map Path.mk).filter Path.isAbsolute with
  | some p => some p
  | none => (home.filter (· ≠ "")).map fun home => (Path.mk home).join ⟨".local/share"⟩

/-- The machine with these libraries. An integer that is no word stops the program. -/
def Machine.plain (env : Environment) : Machine :=
  { env with objects := .lists, temporary := .numbered, arithmetic := .checked }

end ScriptBuild
