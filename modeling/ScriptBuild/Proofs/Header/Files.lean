import ScriptBuild.FileSystem.Place
import ScriptBuild.Header.Scan
import ScriptBuild.Proofs.Header.Constants

/-!
# The files of a scan

A scan lists the headers that it read. Main statements: `isText_of_scanFile` and
`isText_of_scanText` say that each of them is the canonical path of a file that holds a text, and
`files_prefix_of_scanPending` that a header once listed stays listed.
-/

namespace ScriptBuild

variable {fs : FileSystem}

namespace FileSystem

theorem mem_regularFiles {loc : Location} :
    loc ∈ fs.regularFiles ↔ (fs.content? loc).isSome = true := by
  rw [regularFiles, List.mem_filter]
  refine ⟨fun h => h.2, fun h => ⟨?_, h⟩⟩
  unfold content? lookup? at h
  split at h
  · next content hfile =>
    split at hfile
    · cases hfile
    · obtain ⟨before, after, heq, _⟩ := List.lookup_eq_some_iff.1 hfile
      rw [heq, List.map_append]
      exact List.mem_append_right _ List.mem_cons_self
  · cases h

theorem isName_of_mem_regularFiles {loc : Location} (h : loc ∈ fs.regularFiles) :
    loc.all Path.isName = true := by
  have hfile := mem_regularFiles.1 h
  unfold content? at hfile
  split at hfile
  · next content hlookup => exact isName_of_lookup? hlookup
  · cases hfile

theorem nodup_regularFiles (fs : FileSystem) : fs.regularFiles.Nodup :=
  fs.distinct.sublist List.filter_sublist

theorem IsText.isFile {p : Path} (h : fs.IsText p) : fs.isFile p = true := by
  obtain ⟨loc, source, hread, _⟩ := h
  obtain ⟨hloc, htext⟩ := readFile_eq_ok.1 hread
  rw [FileSystem.isFile, hloc]
  dsimp only
  rw [htext]
  rfl

end FileSystem

namespace Header

variable {a : Arithmetic} {directories : List Path}

theorem define_files {scan defined : HeaderScan} {name : String} {body : List Char}
    (h : scan.define a name body = .ok defined) : defined.files = scan.files := by
  rw [define_eq h]

/-- A header that is listed stays listed while directives are scanned. -/
theorem files_prefix_of_scanPending {unread : List Location} {scan result : HeaderScan}
    {pending : List Pending} (h : scanPending a fs directories unread scan pending = .ok result) :
    scan.files <+: result.files := by
  fun_induction scanPending a fs directories unread scan pending with
  | case1 => cases h; exact List.prefix_rfl
  | case2 => cases h
  | case3 _ _ _ _ _ _ _ hdefine ih =>
    have hfiles := ih h
    rwa [define_files hdefine] at hfiles
  | case4 _ _ _ _ _ _ _ ih => exact ih h
  | case5 => cases h
  | case6 => cases h
  | case7 _ _ _ _ _ _ _ _ _ _ _ _ _ _ _ ih => exact (List.prefix_append _ _).trans (ih h)
  | case8 _ _ _ _ _ _ _ _ _ _ _ ih => exact ih h

/-- The files listed while directives are scanned are canonical and hold texts. -/
theorem isText_of_scanPending {unread : List Location} {scan result : HeaderScan}
    {pending : List Pending} (h : scanPending a fs directories unread scan pending = .ok result)
    (hscan : ∀ p ∈ scan.files, fs.IsText p) : ∀ p ∈ result.files, fs.IsText p := by
  fun_induction scanPending a fs directories unread scan pending with
  | case1 => cases h; exact hscan
  | case2 => cases h
  | case3 _ _ _ _ _ _ _ hdefine ih => exact ih h (by rwa [define_files hdefine])
  | case4 _ _ _ _ _ _ _ ih => exact ih h hscan
  | case5 => cases h
  | case6 => cases h
  | case7 _ _ _ _ _ _ _ _ loc hloc _ _ _ source hread ih =>
    refine ih h fun p hp => ?_
    rcases List.mem_append.1 hp with hp | hp
    · exact hscan p hp
    · rw [List.mem_singleton.1 hp]
      exact (FileSystem.reached_of_locate hloc).isText_of_readText hread
  | case8 _ _ _ _ _ _ _ _ _ _ _ ih => exact ih h hscan

theorem isText_of_scanText {source : String} {base : Option Path} {result : HeaderScan}
    (h : scanText a fs directories source base = .ok result) : ∀ p ∈ result.files, fs.IsText p :=
  isText_of_scanPending h fun _ hp => absurd hp List.not_mem_nil

theorem isText_of_scanFile {path : Path} {result : HeaderScan}
    (h : scanFile a fs directories path = .ok result) : ∀ p ∈ result.files, fs.IsText p := by
  unfold scanFile at h
  split at h
  · cases h
  · next loc hloc =>
    split at h
    · cases h
    · next source hread =>
      refine isText_of_scanPending h fun p hp => ?_
      rw [List.mem_singleton.1 hp]
      exact (FileSystem.reached_of_locate hloc).isText_of_readText hread

end Header

end ScriptBuild
