import ScriptBuild.FileSystem.Build
import ScriptBuild.Proofs.Depfile.Record
import ScriptBuild.Proofs.FileSystem.Detour

/-!
# Dependency files relative to a directory

With a root, a dependency file names its files by paths from that directory. They are worked out on
the text of the root, but followed from the place that the root leads to. Main statement:
`relativized_leads_back`, which says where they lead, and that they lead to the files if the text of
the root says where it is.
-/

namespace ScriptBuild.Depfile

variable {fs here : FileSystem} {R : Path}

/-- What succeeds on a list has succeeded on each member. -/
theorem forall₂_of_mapM {α β ε : Type} {f : α → Except ε β} {xs : List α} {ys : List β}
    (h : xs.mapM f = .ok ys) : List.Forall₂ (fun x y => f x = .ok y) xs ys := by
  induction xs generalizing ys with
  | nil =>
    cases h
    exact .nil
  | cons x xs ih =>
    rw [List.mapM_cons] at h
    cases hx : f x with
    | error e =>
      rw [hx] at h
      cases h
    | ok y =>
      cases hxs : xs.mapM f with
      | error e =>
        rw [hx, hxs] at h
        cases h
      | ok ys =>
        rw [hx, hxs] at h
        cases h
        exact .cons hx (ih hxs)

/-- The record of a target and dependencies holds the paths that are shown for them. -/
theorem render_some {root : Path} (hroot : absolute fs R = .ok root) {target : Path}
    {dependencies : List Path} {record : String}
    (h : render fs target dependencies (some R) = .ok record) :
    ∃ t ds, shown fs (some root) target = .ok t ∧
      List.Forall₂ (fun d q => shown fs (some root) d = .ok q) dependencies ds ∧
      record = String.ofList (line (spelling t) (ds.map spelling)) := by
  simp only [render, Option.mapM_some, hroot, Functor.map, Except.map, bind, Except.bind] at h
  cases ht : shown fs (some root) target with
  | error e =>
    rw [ht] at h
    cases h
  | ok t =>
    cases hds : dependencies.mapM (shown fs (some root)) with
    | error e =>
      rw [ht, hds] at h
      cases h
    | ok ds =>
      rw [ht, hds] at h
      cases h
      refine ⟨t, ds, rfl, forall₂_of_mapM hds, ?_⟩
      rw [line, written, List.flatMap_map]
      rfl

/-- A canonical path is shown relative to a root as the way from where the text of the root says
that it is. -/
theorem shown_canonical {root p : Path} {names : Location} (hroot : fs.absolute R = .ok root)
    (hnames : fs.Reached names) (hp : names.toPath = p) :
    ∃ q, shown fs (some root) p = .ok q ∧
      q.pieces = if Path.detour (fs.lexical R) names = [] then ["."]
        else Path.detour (fs.lexical R) names := by
  subst hp
  obtain ⟨habsolute, hlexical⟩ := FileSystem.lexical_absolute hroot
  have hbase : root.normal = ⟨.root, fs.lexical root⟩ := FileSystem.normal_of_isAbsolute habsolute
  have htarget : names.toPath.normal = ⟨.root, fs.lexical names.toPath⟩ :=
    FileSystem.normal_of_isAbsolute names.toPath_isAbsolute
  rw [FileSystem.lexical_toPath hnames.isName] at htarget
  rw [hlexical] at hbase
  refine ⟨names.toPath.relativeTo root, ?_, Path.pieces_relativeTo htarget hbase⟩
  have hempty : names.toPath.isEmpty = false := by
    simp [Path.isEmpty, Location.toPath]
  simp only [shown, absolute, FileSystem.absolute, hempty, names.toPath_isAbsolute]
  rfl

/-- A record relative to a directory holds, for each dependency, a path that is followed from the
place that the directory is, where all paths are texts: up as many levels as the text of the directory
has names that the dependency has not, and down the names that only the dependency has. It leads to
the dependency if the text of the directory says where it is, as it does on a file system without
links and for a canonical path. -/
theorem relativized_leads_back (hR : fs.chdir R = .ok here) :
    ∃ loc root, fs.locate .reach R = .ok loc ∧ absolute fs R = .ok root ∧
      (∀ target dependencies record, render fs target dependencies (some R) = .ok record →
        ∃ t ds, shown fs (some root) target = .ok t ∧
          List.Forall₂ (fun d q => shown fs (some root) d = .ok q) dependencies ds ∧
          record = String.ofList (line (spelling t) (ds.map spelling))) ∧
      (∀ p, fs.canonicalize p = .ok p → ∃ names q, fs.locate .reach p = .ok names ∧
        shown fs (some root) p = .ok q ∧
        here.canonicalize q =
          (fs.follow (List.dropLast^[(Path.dropShared names (fs.lexical R)).2.length] loc ++
            (Path.dropShared names (fs.lexical R)).1)).map Location.toPath ∧
        (fs.lexical R = loc → here.canonicalize q = .ok p)) ∧
      (fs.Linkless → fs.lexical R = loc) ∧ (fs.canonicalize R = .ok R → fs.lexical R = loc) := by
  obtain ⟨loc, hreached, hdir, hloc, rfl⟩ := FileSystem.chdir_eq_ok hR
  obtain ⟨root, hroot⟩ := FileSystem.exists_absolute hloc
  have habsolute : absolute fs R = .ok root := by
    rw [absolute, hroot]
    rfl
  refine ⟨loc, root, hloc, habsolute, fun _ _ _ => render_some habsolute, fun p hp => ?_,
    fun hlinkless => hlinkless.lexical_eq hloc, fun hcanonical => ?_⟩
  · obtain ⟨names, hnames, htoPath⟩ := FileSystem.canonicalize_eq_ok.1 hp
    have htarget := FileSystem.reached_of_locate hnames
    obtain ⟨q, hshown, hpieces⟩ := shown_canonical hroot htarget htoPath
    have hlocate := FileSystem.locate_detour hreached hdir htarget hpieces
    refine ⟨names, q, hnames, hshown, ?_, fun hlexical => ?_⟩
    · rw [FileSystem.canonicalize, hlocate]
    · rw [hlexical, FileSystem.follow_detour htarget] at hlocate
      rw [FileSystem.canonicalize, hlocate, ← htoPath]
      rfl
  · obtain ⟨loc', hloc', htoPath⟩ := FileSystem.canonicalize_eq_ok.1 hcanonical
    rw [hloc] at hloc'
    cases hloc'
    rw [← htoPath, FileSystem.lexical_toPath hreached.isName]

/-- The way from a directory leads back although the directory was not given by its canonical
path. -/
theorem winding_root_leads_back :
    let disk := FileSystem.ofEntries ⟨"/"⟩
      [(⟨"/a/b"⟩, .directory), (⟨"/m.t"⟩, .file (.text ""))]
    ∃ here q, disk.chdir ⟨"/a/../a/b"⟩ = .ok here ∧ disk.canonicalize ⟨"/m.t"⟩ = .ok ⟨"/m.t"⟩ ∧
      shown disk (some ⟨"/a/../a/b"⟩) ⟨"/m.t"⟩ = .ok q ∧ here.canonicalize q = .ok ⟨"/m.t"⟩ := by
  intro disk
  have hcanonical : disk.canonicalize ⟨"/m.t"⟩ = .ok ⟨"/m.t"⟩ := by decide +kernel
  have hplace : disk.locate .reach ⟨"/a/../a/b"⟩ = .ok ["a", "b"] := by decide +kernel
  have hlexical : disk.lexical ⟨"/a/../a/b"⟩ = ["a", "b"] := by decide +kernel
  have habsolute : absolute disk ⟨"/a/../a/b"⟩ = .ok ⟨"/a/../a/b"⟩ := by decide +kernel
  obtain ⟨here, hhere⟩ : ∃ here, disk.chdir ⟨"/a/../a/b"⟩ = .ok here := ⟨_, rfl⟩
  obtain ⟨loc, root, hloc, hroot, _, hleads, _⟩ := relativized_leads_back hhere
  rw [hplace] at hloc
  rw [habsolute] at hroot
  cases hloc
  cases hroot
  obtain ⟨names, q, _, hshown, _, hback⟩ := hleads ⟨"/m.t"⟩ hcanonical
  exact ⟨here, q, hhere, hcanonical, hshown, hback hlexical⟩

/-- The text of a root that is a link says that it is elsewhere: the path that is written for a file
leads to nothing from the directory. -/
theorem root_through_link :
    let disk := FileSystem.ofEntries ⟨"/"⟩ [(⟨"/a/b"⟩, .directory), (⟨"/link"⟩, .link ⟨"/a/b"⟩),
      (⟨"/m.t"⟩, .file (.text ""))]
    ∃ here, disk.chdir ⟨"/link"⟩ = .ok here ∧ disk.canonicalize ⟨"/m.t"⟩ = .ok ⟨"/m.t"⟩ ∧
      shown disk (some ⟨"/link"⟩) ⟨"/m.t"⟩ = .ok ⟨"../m.t"⟩ ∧
      render disk ⟨"/m.o"⟩ [⟨"/m.t"⟩] (some ⟨"/link"⟩) = .ok "../m.o: ../m.t\n" ∧
      here.canonicalize ⟨"../m.t"⟩ = .error .notFound := by
  intro disk
  exact ⟨_, rfl, by decide +kernel, by decide +kernel, by decide +kernel, by decide +kernel⟩

end ScriptBuild.Depfile
