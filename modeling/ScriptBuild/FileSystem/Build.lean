import ScriptBuild.FileSystem.Place

/-!
# Making and changing a file system

A file system is made from a list of paths and what stands at each of them. The directories on the
way to an entry are made with it, and links on that way are followed. Main statement:
`lookup?_without_of_isPrefixOf` says that nothing is left at or below a location that was cleared.
-/

namespace ScriptBuild.FileSystem

/-- Enters names one after the other from a location and makes the directories that are missing.
There is no way through a file, or through a link that leads nowhere. -/
def makeDirectories (fs : FileSystem) : Location → List String → Option (FileSystem × Location)
  | loc, [] => if fs.isDirectoryAt loc then some (fs, loc) else none
  | loc, name :: rest =>
    if ! fs.isDirectoryAt loc then none
    else if Path.isVoid name then fs.makeDirectories loc rest
    else if name = ".." then fs.makeDirectories loc.dropLast rest
    else match fs.lookup? (loc ++ [name]) with
      | none => (fs.put (loc ++ [name]) .directory).makeDirectories (loc ++ [name]) rest
      | some (.link _) =>
        match fs.walk .reach maxLinks loc [name] with
        | .ok target => fs.makeDirectories target rest
        | .error _ => none
      | some _ => fs.makeDirectories (loc ++ [name]) rest

/-- The file system with nothing at a location or below it. -/
def without (fs : FileSystem) (loc : Location) : FileSystem where
  entries := fs.entries.filter fun x => ! loc.isPrefixOf x.1
  workingDirectory := fs.workingDirectory.filter fun cwd => ! loc.isPrefixOf cwd
  distinct := nodup_keys_filter fs.distinct _
  named x hx := fs.named x (List.mem_filter.1 hx).1
  settled := by
    intro cwd hcwd above habove hne
    obtain ⟨hold, hkept⟩ := Option.filter_eq_some_iff.1 hcwd
    refine (lookup_filter (fun _ => ?_) _).trans (fs.settled cwd hold above habove hne)
    rw [Bool.not_eq_true', ← Bool.not_eq_true, List.isPrefixOf_iff_prefix] at hkept ⊢
    exact fun hloc => hkept (hloc.trans habove)

/-- The file system with an entry at a path, if there is a way to it. A file is written where the
path leads; a link takes the place of what stood there. -/
def add? (fs : FileSystem) (p : Path) (e : Entry) : Option FileSystem := do
  let start ← (fs.startOf p).toOption
  match e with
  | .directory => (fs.makeDirectories start p.pieces).map (·.1)
  | .file content =>
    let parent ← p.parent?
    let (made, _) ← fs.makeDirectories start parent.pieces
    (made.write p content).toOption
  | .link target =>
    let parent ← p.parent?
    let (made, loc) ← fs.makeDirectories start parent.pieces
    let name ← p.fileName?
    return (made.without (loc ++ [name])).put (loc ++ [name]) (.link target)

/-- The file system with an entry at a path. Without a way to it nothing changes. -/
def add (fs : FileSystem) (p : Path) (e : Entry) : FileSystem :=
  (fs.add? p e).getD fs

/-- The location at which the last name of a path stands, itself not followed if it is a link. -/
def entryLocation? (fs : FileSystem) (p : Path) : Option Location := do
  let start ← (fs.startOf p).toOption
  let parent ← p.parent?
  let name ← p.fileName?
  let loc ← (fs.walk .reach maxLinks start parent.pieces).toOption
  return loc ++ [name]

/-- The file system without what stands at a path. A link is removed, not what it leads to; a
directory goes with all that stands below it. -/
def remove (fs : FileSystem) (p : Path) : FileSystem :=
  match fs.entryLocation? p with
  | some loc => fs.without loc
  | none => fs

/-- The file system that holds nothing but the root. -/
def bare : FileSystem where
  entries := []
  workingDirectory := some []
  distinct := List.nodup_nil
  named _ hx := absurd hx List.not_mem_nil
  settled := by
    rintro _ ⟨⟩ loc hloc hne
    exact absurd (List.prefix_nil.1 hloc) hne

/-- The file system in which relative paths start at the directory that a path leads to. -/
def startingAt (fs : FileSystem) (p : Path) : FileSystem :=
  { fs with
    workingDirectory := (fs.locate .reach p).toOption.filter fs.isDirectoryAt
    settled := by
      intro cwd hcwd above habove hne
      obtain ⟨hfound, hdir⟩ := Option.filter_eq_some_iff.1 hcwd
      have hreached : fs.Reached cwd := by
        cases hloc : fs.locate .reach p with
        | error cause => rw [hloc] at hfound; cases hfound
        | ok loc => rw [hloc] at hfound; cases hfound; exact reached_of_locate hloc
      have := isDirectoryAt_iff.1 (hreached.isDirectoryAt_of_prefix hdir habove)
      rwa [lookup?, if_neg hne] at this }

/-- The file system with the given entries, an empty `/tmp` and the working directory. -/
def ofEntries (cwd : Path) (files : List (Path × Entry)) : FileSystem :=
  let planted := files.foldl (fun fs x => fs.add x.1 x.2) bare
  ((planted.add ⟨"/tmp"⟩ .directory).add cwd .directory).startingAt cwd

/-- Nothing is left at or below a location that was cleared. -/
theorem lookup?_without_of_isPrefixOf {fs : FileSystem} {loc below : Location} (hloc : loc ≠ [])
    (h : loc.isPrefixOf below = true) : (fs.without loc).lookup? below = none := by
  have hne : below ≠ [] := by
    rintro rfl
    cases loc with
    | nil => exact hloc rfl
    | cons => cases h
  simp only [lookup?, without, if_neg hne]
  refine List.lookup_eq_none_iff.2 fun x hx => bne_iff_ne.2 fun e => ?_
  have kept := (List.mem_filter.1 hx).2
  rw [← e, h] at kept
  cases kept

end ScriptBuild.FileSystem
