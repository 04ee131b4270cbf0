import ScriptBuild.Path.Basic

/-!
# Normal form of paths and relative paths

A path in normal form starts at the root or climbs a number of levels, and then only enters names.
The normal form is computed from the components alone, so links are not looked at. A relative path
from one place to another drops the components that both share, climbs out of the rest of the first
and enters the rest of the second. `dropShared_append` says that
the two paths differ from their rests by one and the same start.
-/

namespace ScriptBuild.Path

/-- Where a path in normal form starts. -/
inductive Start where
  /-- At the root. -/
  | root
  /-- So many levels above the current directory. -/
  | climb (levels : Nat)
  deriving DecidableEq, Repr

/-- A path in normal form: a start, and the names entered from there. -/
structure Normal where
  start : Start
  names : List String
  deriving DecidableEq, Repr

namespace Normal

/-- The current directory. -/
def here : Normal := ⟨.climb 0, []⟩

/-- One level up: the last name is left again. The root is its own parent. -/
def leave : Normal → Normal
  | ⟨.root, []⟩ => ⟨.root, []⟩
  | ⟨.climb levels, []⟩ => ⟨.climb (levels + 1), []⟩
  | ⟨start, names⟩ => ⟨start, names.dropLast⟩

/-- The normal form after one more component. -/
def step (n : Normal) : Component → Normal
  | .root => ⟨.root, []⟩
  | .current => n
  | .up => n.leave
  | .name text => ⟨n.start, n.names ++ [text]⟩

/-- The components of a start. -/
def startComponents : Start → List Component
  | .root => [.root]
  | .climb levels => List.replicate levels .up

/-- The components of a normal form. -/
def components (n : Normal) : List Component :=
  startComponents n.start ++ n.names.map .name

end Normal

/-- The normal form of a path. -/
def normal (p : Path) : Normal :=
  p.components.foldl Normal.step .here

/-- The path with `.` and `..` worked out on its text alone; `..` at the root stays there. -/
def normalize (p : Path) : Path :=
  ofComponents p.normal.components

/-- The first list without the longest start that it shares with the second, and the second without
that start. -/
def dropShared {α : Type} [DecidableEq α] : List α → List α → List α × List α
  | a :: as, b :: bs => if a = b then dropShared as bs else (a :: as, b :: bs)
  | as, bs => (as, bs)

/-- The path from the directory `base` to `p`, worked out on the normal forms of both: one climb for
each component that only `base` has, then the components that only `p` has. -/
def relativeTo (p base : Path) : Path :=
  let rests := dropShared p.normal.components base.normal.components
  let rel := ofComponents (rests.2.map (fun _ => .up) ++ rests.1)
  if rel.isEmpty then ⟨"."⟩ else rel

/-- Nothing but the shared start is dropped. -/
theorem dropShared_append {α : Type} [DecidableEq α] (as bs : List α) :
    ∃ shared, as = shared ++ (dropShared as bs).1 ∧ bs = shared ++ (dropShared as bs).2 := by
  fun_induction dropShared as bs with
  | case1 as a bs ih =>
    obtain ⟨shared, ha, hb⟩ := ih
    exact ⟨a :: shared, congrArg (a :: ·) ha, congrArg (a :: ·) hb⟩
  | case2 => exact ⟨[], rfl, rfl⟩
  | case3 => exact ⟨[], rfl, rfl⟩

end ScriptBuild.Path
