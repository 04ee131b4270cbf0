import ScriptBuild.Path.Basic

/-!
# The environment of a run

What a run takes from the process that it runs in.
-/

namespace ScriptBuild

/-- The variables that a run reads, each perhaps unset, and the paths that the system tells. -/
structure Environment where
  /-- `SCRIPTC_PATH`: directories to search for modules. -/
  modulePath : Option String := none
  /-- `CC`: the program that links. -/
  compiler : Option String := none
  /-- The path of the running program. -/
  executable : Option Path := none
  /-- The directory for the data of the user. -/
  userData : Option Path := none
  deriving DecidableEq, Repr

namespace Environment

/-- The directory that the program was installed in: the parent of the parent of its path. -/
def installation (env : Environment) : Option Path :=
  (env.executable.bind Path.parent?).bind Path.parent?

/-- The directories that are searched for modules unless that is suppressed. -/
def defaultModuleDirectories (env : Environment) : List Path :=
  (env.installation.map fun p => ((p.join ⟨"share"⟩).join ⟨"scriptc"⟩).join ⟨"modules"⟩).toList ++
  (env.userData.map fun p => (p.join ⟨"scriptc"⟩).join ⟨"modules"⟩).toList

end Environment

end ScriptBuild
