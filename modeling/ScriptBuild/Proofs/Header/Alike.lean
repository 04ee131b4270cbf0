import ScriptBuild.Proofs.FileSystem.Alike
import ScriptBuild.Proofs.Header.Files

/-!
# Scans that read the same

A header is looked for by what stands where, not by what files hold, and every header that is read is
listed. So a scan that succeeds comes to the same on another file system if all it lists is kept
there. Main statements: `scanFile_of_kept` and `scanText_of_kept`.
-/

namespace ScriptBuild.Header

variable {a : Arithmetic} {kept : Path → Prop} {fs fs' : FileSystem} {directories : List Path}

theorem find_eq (h : fs.AlikeOn kept fs') (name : String) (directories : List Path)
    (fallback : Option Path) :
    find fs' name directories fallback = find fs name directories fallback := by
  unfold find
  rw [h.isFile_eq]

theorem target?_eq (h : fs.AlikeOn kept fs') (base : Option Path) (name : String)
    (quoted : Bool) :
    target? fs' directories base name quoted = target? fs directories base name quoted := by
  unfold target?
  rw [h.isFile_eq, find_eq h]

theorem readText_of_kept (h : fs.AlikeOn kept fs') {loc : Location} {source : String}
    (hreached : fs.Reached loc) (hkept : kept loc.toPath)
    (hread : fs.readText loc.toPath = .ok source) : fs'.readText loc.toPath = .ok source := by
  obtain ⟨found, hfile⟩ := FileSystem.readText_eq_ok.1 hread
  have hloc := (FileSystem.readFile_eq_ok.1 hfile).1
  rw [FileSystem.locate_toPath hreached] at hloc
  cases hloc
  exact FileSystem.readText_eq_ok.2 ⟨loc, h.readFile_of_kept hkept hfile⟩

/-- Directives are scanned alike if the headers that are read for them are kept. The order of the
files not yet read does not matter. -/
theorem scanPending_of_kept (h : fs.AlikeOn kept fs') {unread unread' : List Location}
    {scan result : HeaderScan} {pending : List Pending} (hnodup : unread.Nodup)
    (hnodup' : unread'.Nodup) (hsame : ∀ loc, loc ∈ unread' ↔ loc ∈ unread)
    (hscan : scanPending a fs directories unread scan pending = .ok result)
    (hkept : ∀ p ∈ result.files, kept p) :
    scanPending a fs' directories unread' scan pending = .ok result := by
  fun_induction scanPending a fs directories unread scan pending generalizing unread' with
  | case1 =>
    rw [scanPending]
    exact hscan
  | case2 => cases hscan
  | case3 _ _ _ _ _ _ defined hdefine ih =>
    rw [scanPending, hdefine]
    exact ih hnodup hnodup' hsame hscan
  | case4 _ _ _ _ _ _ htarget ih =>
    rw [scanPending, target?_eq h, htarget]
    exact ih hnodup hnodup' hsame hscan
  | case5 => cases hscan
  | case6 => cases hscan
  | case7 unread scan _ _ _ _ _ htarget loc hloc hin _ _ source hread ih =>
    have hlisted : loc.toPath ∈ result.files :=
      (files_prefix_of_scanPending hscan).subset (List.mem_append_right _ List.mem_cons_self)
    have hread' := readText_of_kept h (FileSystem.reached_of_locate hloc) (hkept _ hlisted) hread
    have herase : ∀ other, other ∈ unread'.erase loc ↔ other ∈ unread.erase loc := by
      intro other
      rw [hnodup'.mem_erase_iff, hnodup.mem_erase_iff, hsame]
    rw [scanPending, target?_eq h, htarget]
    dsimp only
    rw [h.locate_eq, hloc]
    dsimp only
    rw [dif_pos ((hsame loc).2 hin), hread']
    exact ih (hnodup.erase loc) (hnodup'.erase loc) herase hscan
  | case8 _ _ _ _ _ _ _ htarget loc hloc hread ih =>
    rw [scanPending, target?_eq h, htarget]
    dsimp only
    rw [h.locate_eq, hloc]
    dsimp only
    rw [dif_neg fun hin => hread ((hsame loc).1 hin)]
    exact ih hnodup hnodup' hsame hscan

theorem mem_regularFiles_iff (h : fs.AlikeOn kept fs') (loc : Location) :
    loc ∈ fs'.regularFiles ↔ loc ∈ fs.regularFiles := by
  rw [FileSystem.mem_regularFiles, FileSystem.mem_regularFiles, h.isSome_content?]

theorem scanText_of_kept (h : fs.AlikeOn kept fs') {source : String} {base : Option Path}
    {result : HeaderScan} (hscan : scanText a fs directories source base = .ok result)
    (hkept : ∀ p ∈ result.files, kept p) :
    scanText a fs' directories source base = .ok result :=
  scanPending_of_kept h fs.nodup_regularFiles fs'.nodup_regularFiles (mem_regularFiles_iff h) hscan
    hkept

theorem scanFile_of_kept (h : fs.AlikeOn kept fs') {path : Path} {result : HeaderScan}
    (hscan : scanFile a fs directories path = .ok result) (hkept : ∀ p ∈ result.files, kept p) :
    scanFile a fs' directories path = .ok result := by
  unfold scanFile at hscan ⊢
  rw [h.locate_eq]
  rcases hloc : fs.locate .reach path with cause | loc
  · rw [hloc] at hscan
    cases hscan
  · rw [hloc] at hscan
    dsimp only at hscan ⊢
    rcases hread : fs.readText loc.toPath with cause | source
    · rw [hread] at hscan
      cases hscan
    · rw [hread] at hscan
      have hlisted : loc.toPath ∈ result.files :=
        (files_prefix_of_scanPending hscan).subset (List.mem_singleton_self _)
      have hread' :=
        readText_of_kept h (FileSystem.reached_of_locate hloc) (hkept _ hlisted) hread
      have herase : ∀ other,
          other ∈ fs'.regularFiles.erase loc ↔ other ∈ fs.regularFiles.erase loc := by
        intro other
        rw [fs'.nodup_regularFiles.mem_erase_iff, fs.nodup_regularFiles.mem_erase_iff,
          mem_regularFiles_iff h]
      rw [hread']
      exact scanPending_of_kept h (fs.nodup_regularFiles.erase loc)
        (fs'.nodup_regularFiles.erase loc) herase hscan hkept

end ScriptBuild.Header
