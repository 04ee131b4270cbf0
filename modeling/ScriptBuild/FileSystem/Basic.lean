import ScriptBuild.Path.Normal

/-!
# File systems

A file system says what stands at each location: a regular file, a symbolic link or a directory. A
path is followed name by name, each link expanded where it stands, `..` taken from the directory
that was really reached. A file has one location: there are no hard links, so what is written at a
location is read at no other. Main statements: `lookup?_put` and `lookup?_put_of_ne` say that putting
an entry changes its location and no other.
-/

namespace ScriptBuild

/-- The names that lead from the root to a file or directory, no link among them. -/
abbrev Location := List String

/-- What a regular file holds. -/
inductive Content where
  /-- Bytes that are a text in UTF-8. -/
  | text (s : String)
  /-- Bytes that are no text. -/
  | binary (bytes : List UInt8)
  deriving DecidableEq

/-- The content that bytes are: a text if they are one. -/
def Content.ofBytes (bytes : ByteArray) : Content :=
  match String.fromUTF8? bytes with
  | some s => .text s
  | none => .binary bytes.toList

/-- The bytes that a content is. -/
def Content.toBytes : Content → ByteArray
  | text s => s.toUTF8
  | binary bytes => ⟨bytes.toArray⟩

/-- What stands at a location. -/
inductive Entry where
  | file (content : Content)
  | link (target : Path)
  | directory
  deriving DecidableEq

/-- Why the operating system refuses. -/
inductive OsError where
  | notFound
  | notDirectory
  | isDirectory
  | tooManyLinks
  /-- The path holds a NUL character. -/
  | nulCharacter
  /-- An argument of a program holds a NUL character. -/
  | nulArgument
  /-- The file was to be read as a text and is none. -/
  | notText
  /-- The empty path was to be made absolute. -/
  | emptyPath
  /-- Another reason, in the words of the system. -/
  | other (text : String)
  deriving DecidableEq, Repr

/-- The wording of a refusal. -/
def OsError.message : OsError → String
  | notFound => "No such file or directory (os error 2)"
  | notDirectory => "Not a directory (os error 20)"
  | isDirectory => "Is a directory (os error 21)"
  | tooManyLinks => "Too many levels of symbolic links (os error 40)"
  | nulCharacter => "file name contained an unexpected NUL byte"
  | nulArgument => "nul byte found in provided data"
  | notText => "stream did not contain valid UTF-8"
  | emptyPath => "cannot make an empty path absolute"
  | other text => text

/-- What stands where, and the directory at which relative paths start. The root is a directory
without an entry of its own. -/
structure FileSystem where
  entries : List (Location × Entry)
  /-- There is none once it was removed. -/
  workingDirectory : Option Location
  /-- No two entries stand at one location. -/
  distinct : (entries.map (·.1)).Nodup
  /-- Entries have names that a file may have. -/
  named : ∀ x ∈ entries, x.1.all Path.isName = true
  /-- The way to the working directory leads through directories only. -/
  settled : ∀ cwd, workingDirectory = some cwd →
    ∀ loc, loc <+: cwd → loc ≠ [] → entries.lookup loc = some .directory
  deriving DecidableEq

/-- The absolute path of a location. -/
def Location.toPath (loc : Location) : Path :=
  ⟨"/" ++ "/".intercalate loc⟩

/-- Why a path is followed. -/
inductive Purpose where
  /-- To reach something that exists. -/
  | reach
  /-- To write a file, which may not exist yet. -/
  | create
  deriving DecidableEq, Repr

namespace FileSystem

/-- What stands at a location. -/
def lookup? (fs : FileSystem) (loc : Location) : Option Entry :=
  if loc = [] then some .directory else fs.entries.lookup loc

/-- The location is a directory. -/
def isDirectoryAt (fs : FileSystem) (loc : Location) : Bool :=
  fs.lookup? loc == some .directory

theorem lookup_filter {keep : Location × Entry → Bool} {loc : Location}
    (h : ∀ e, keep (loc, e) = true) (es : List (Location × Entry)) :
    (es.filter keep).lookup loc = es.lookup loc := by
  induction es with
  | nil => rfl
  | cons x xs ih =>
    obtain ⟨key, e⟩ := x
    by_cases hk : loc = key
    · subst hk
      rw [List.filter_cons_of_pos (h e), List.lookup_cons_self, List.lookup_cons_self]
    · have hne : (loc == key) = false := beq_eq_false_iff_ne.2 hk
      cases hkeep : keep (key, e) with
      | true => rw [List.filter_cons_of_pos hkeep, List.lookup_cons, List.lookup_cons, hne, ih]
      | false =>
        rw [List.filter_cons_of_neg (by simp [hkeep]), ih, List.lookup_cons, hne]

theorem lookup_filter_of_ne {loc other : Location} (h : other ≠ loc)
    (es : List (Location × Entry)) :
    (es.filter (·.1 ≠ loc)).lookup other = es.lookup other :=
  lookup_filter (fun _ => decide_eq_true h) es

theorem nodup_keys_filter {es : List (Location × Entry)} (h : (es.map (·.1)).Nodup)
    (keep : Location × Entry → Bool) : ((es.filter keep).map (·.1)).Nodup :=
  h.sublist (List.filter_sublist.map _)

/-- The working directory that is left when an entry is put at a location: none if it stood there or
below, unless the entry is a directory. -/
def keptDirectory (fs : FileSystem) (loc : Location) (e : Entry) : Option Location :=
  fs.workingDirectory.filter fun cwd => e == .directory || ! loc.isPrefixOf cwd

/-- The file system with an entry put at a location, in place of any other. Nothing is put where no
file can be. -/
def put (fs : FileSystem) (loc : Location) (e : Entry) : FileSystem :=
  if h : loc.all Path.isName = true then
    { entries := (loc, e) :: fs.entries.filter (·.1 ≠ loc)
      workingDirectory := fs.keptDirectory loc e
      distinct := by
        refine List.nodup_cons.2 ⟨fun hm => ?_, nodup_keys_filter fs.distinct _⟩
        obtain ⟨x, hx, rfl⟩ := List.mem_map.1 hm
        exact absurd rfl (of_decide_eq_true (List.mem_filter.1 hx).2)
      named := by
        intro x hx
        rcases List.mem_cons.1 hx with rfl | hx
        · exact h
        · exact fs.named x (List.mem_filter.1 hx).1
      settled := by
        intro cwd hcwd other hother hne
        obtain ⟨hold, hkept⟩ := Option.filter_eq_some_iff.1 hcwd
        by_cases heq : other = loc
        · subst heq
          have hpre : other.isPrefixOf cwd = true := List.isPrefixOf_iff_prefix.2 hother
          have he : e = .directory := by simpa [hpre] using hkept
          rw [he, List.lookup_cons_self]
        · rw [List.lookup_cons, beq_eq_false_iff_ne.2 heq]
          exact (lookup_filter_of_ne heq _).trans (fs.settled cwd hold other hother hne) }
  else fs

/-- The names left to enter are empty, as slashes at the end of a path leave them. -/
def onlySlashes (names : List String) : Bool :=
  names ≠ [] && names.all (· == "")

/-- Enters names one after the other from a location. `follow` goes on where a link leads, with the
names of its target in front of those that are left. -/
def enter (fs : FileSystem) (purpose : Purpose)
    (follow : Location → List String → Except OsError Location) :
    Location → List String → Except OsError Location
  | loc, [] => .ok loc
  | loc, name :: rest =>
    if ! fs.isDirectoryAt loc then .error .notDirectory
    else if Path.isVoid name then fs.enter purpose follow loc rest
    else if name = ".." then fs.enter purpose follow loc.dropLast rest
    else if purpose = .create && onlySlashes rest then .error .isDirectory
    else match fs.lookup? (loc ++ [name]) with
      | none => if purpose = .create && rest = [] then .ok (loc ++ [name]) else .error .notFound
      | some (.link target) =>
        follow (if target.isAbsolute then [] else loc) (target.pieces ++ rest)
      | some _ => fs.enter purpose follow (loc ++ [name]) rest

/-- Enters names one after the other, through at most so many links. -/
def walk (fs : FileSystem) (purpose : Purpose) :
    Nat → Location → List String → Except OsError Location
  | 0 => fs.enter purpose fun _ _ => .error .tooManyLinks
  | links + 1 => fs.enter purpose (fs.walk purpose links)

/-- The number of links that one path may lead through. -/
def maxLinks : Nat := 40

/-- The working directory. -/
def currentDirectory (fs : FileSystem) : Except OsError Location :=
  match fs.workingDirectory with
  | some loc => .ok loc
  | none => .error .notFound

/-- The directory at which a path starts. -/
def startOf (fs : FileSystem) (p : Path) : Except OsError Location :=
  if p.isAbsolute then .ok [] else fs.currentDirectory

/-- The location that a path leads to. -/
def locate (fs : FileSystem) (purpose : Purpose) (p : Path) : Except OsError Location :=
  if p.text.toList.contains '\x00' then .error .nulCharacter
  else if p.isEmpty then .error .notFound
  else (fs.startOf p).bind fun start => fs.walk purpose maxLinks start p.pieces

/-- The path without links, `.` or `..` that leads to the same place. -/
def canonicalize (fs : FileSystem) (p : Path) : Except OsError Path :=
  (fs.locate .reach p).map Location.toPath

/-- The content of the regular file at a location. -/
def content? (fs : FileSystem) (loc : Location) : Option Content :=
  match fs.lookup? loc with
  | some (.file content) => some content
  | _ => none

/-- The path leads to a regular file. -/
def isFile (fs : FileSystem) (p : Path) : Bool :=
  match fs.locate .reach p with
  | .ok loc => (fs.content? loc).isSome
  | .error _ => false

/-- The canonical path of the regular file that a path leads to. -/
def probe (fs : FileSystem) (p : Path) : Option Path :=
  match fs.locate .reach p with
  | .ok loc => if (fs.content? loc).isSome then some loc.toPath else none
  | .error _ => none

/-- The location and the text of the file that a path leads to. -/
def readFile (fs : FileSystem) (p : Path) : Except OsError (Location × String) := do
  let loc ← fs.locate .reach p
  match fs.content? loc with
  | some (.text s) => .ok (loc, s)
  | some (.binary _) => .error .notText
  | none => .error .isDirectory

/-- The text of the file that a path leads to. -/
def readText (fs : FileSystem) (p : Path) : Except OsError String :=
  (fs.readFile p).map (·.2)

/-- The file system after a file was written at a path. No directory is created for it. -/
def write (fs : FileSystem) (p : Path) (content : Content) : Except OsError FileSystem := do
  let loc ← fs.locate .create p
  if ! loc.all Path.isName then .error .nulCharacter
  else if fs.isDirectoryAt loc then .error .isDirectory
  else .ok (fs.put loc (.file content))

/-- The path that names the same place from the root. Neither links nor `..` are worked out. -/
def absolute (fs : FileSystem) (p : Path) : Except OsError Path :=
  if p.isEmpty then .error .emptyPath
  else if p.isAbsolute then .ok p
  else fs.currentDirectory.map fun loc => loc.toPath.join p

theorem lookup?_put {fs : FileSystem} {loc : Location} (hne : loc ≠ [])
    (h : loc.all Path.isName = true) (e : Entry) : (fs.put loc e).lookup? loc = some e := by
  simp [lookup?, put, hne, h]

theorem lookup?_put_of_ne {fs : FileSystem} {loc other : Location} (h : other ≠ loc) (e : Entry) :
    (fs.put loc e).lookup? other = fs.lookup? other := by
  unfold put
  split
  · simp only [lookup?, List.lookup_cons, beq_eq_false_iff_ne.2 h, lookup_filter_of_ne h]
  · rfl

end FileSystem

end ScriptBuild
