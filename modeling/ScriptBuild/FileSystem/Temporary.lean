import ScriptBuild.FileSystem.Alike

/-!
# Temporary files

A temporary file is made by a library, at a path that is free. `TemporaryFiles` is what is known of
the library: a file can be made at the path that it gives, and it looks for the path among what stands
where, not in what files hold.
-/

namespace ScriptBuild

namespace FileSystem

/-- A path by which a file can be made: it leads into a directory in which nothing has this name. -/
structure Vacant (fs : FileSystem) (p : Path) (loc : Location) : Prop where
  way : fs.locate .create p = .ok loc
  place : fs.entryLocation? p = some loc
  named : loc.all Path.isName = true
  directory : fs.isDirectoryAt loc.dropLast = true
  empty : ∀ other, loc <+: other → fs.lookup? other = none

/-- What files hold does not matter for whether a path is vacant. -/
theorem Vacant.alike {kept : Path → Prop} {fs fs' : FileSystem} {p : Path} {loc : Location}
    (h : fs.Vacant p loc) (halike : fs.AlikeOn kept fs') : fs'.Vacant p loc where
  way := (halike.locate_eq .create p).trans h.way
  place := (halike.entryLocation?_eq p).trans h.place
  named := h.named
  directory := (halike.isDirectoryAt_eq _).trans h.directory
  empty other hbelow := by
    have hnone := h.empty other hbelow
    rcases halike.lookup other with heq | ⟨_, c, _, hfile, _⟩
    · exact heq.trans hnone
    · rw [hnone] at hfile
      cases hfile

end FileSystem

/-- A library that makes temporary files: its directory, and the path of the next one. -/
structure TemporaryFiles where
  directory : Path
  place : FileSystem → Except OsError Path
  vacant : ∀ disk temp, place disk = .ok temp → ∃ loc, disk.Vacant temp loc
  /-- What files hold does not matter for the path. -/
  alike : ∀ disk disk', disk.AlikeOn (fun _ => False) disk' → place disk' = place disk

end ScriptBuild
