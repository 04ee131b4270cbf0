import ScriptBuild.Proofs.Header.Alike
import ScriptBuild.Proofs.Import.Depth

/-!
# Running scripts again

An evaluation that succeeds does the same on a file system in which everything that it recorded is
kept. Whatever it reads it records, and a file that was read but not yet recorded is recorded before
the evaluation ends, since a failure anywhere ends it. Main statements: `follows_require` and
`runChunk_on`.
-/

namespace ScriptBuild

open Script (Builtin Chunk)

namespace Setting

/-- The setting with another file system. -/
def on (setting : Setting) (disk : FileSystem) : Setting :=
  { setting with disk := disk }

/-- The second computation does what the first one does, if the first one succeeds and all that is
recorded by then is kept. -/
structure Follows (setting : Setting) (kept : Path → Prop) ⦃α : Type⦄ (x x' : Eval α) : Prop where
  evolving : setting.Evolving x
  follow : ∀ {s : State} {v : α} {t : State}, x s = (.ok v, t) → (∀ p ∈ t.dependencies, kept p) →
    x' s = (.ok v, t)

namespace Follows

variable {setting : Setting} {kept : Path → Prop}

theorem bind {α β : Type} {x x' : Eval α} {f f' : α → Eval β}
    (hx : setting.Follows kept x x') (hf : ∀ a, setting.Follows kept (f a) (f' a)) :
    setting.Follows kept (x >>= f) (x' >>= f') := by
  refine ⟨hx.evolving.bind fun a => (hf a).evolving, fun {s v t} h hkept => ?_⟩
  rw [Eval.bind_apply] at h
  rcases hout : x s with ⟨e | a, u⟩
  · rw [hout] at h
    cases h
  · rw [hout] at h
    have hgrows := ((hf a).evolving.evolves h).dependencies_grow
    have hfirst := hx.follow hout fun p hp => hkept p (hgrows.subset hp)
    rw [Eval.bind_of_ok hfirst]
    exact (hf a).follow h hkept

theorem mapError {α : Type} {x x' : Eval α} (hx : setting.Follows kept x x')
    (g : ModuleError → ModuleError) : setting.Follows kept (x.mapError g) (x'.mapError g) := by
  refine ⟨Eval.Makes.mapError hx.evolving g, fun {s v t} h hkept => ?_⟩
  unfold Eval.mapError at h ⊢
  rcases hout : x s with ⟨(e | _ | _) | a, u⟩
  · rw [hout] at h
    cases h
  · rw [hout] at h
    cases h
  · rw [hout] at h
    cases h
  · rw [hout] at h
    cases h
    rw [hx.follow hout hkept]

/-- A computation that reads no files follows itself. -/
theorem refl {α : Type} {x : Eval α} (hx : setting.Evolving x) : setting.Follows kept x x :=
  ⟨hx, fun h _ => h⟩

theorem congruence (setting : Setting) (kept : Path → Prop) :
    Eval.Congruence (setting.Follows kept) where
  value _ := refl fun s => .refl s
  failure _ _ := refl fun s => .refl s
  state := refl fun s => .refl s
  counted := refl fun s => .counted s
  exported name c := refl fun s => .exported s name c
  linked flags := refl fun s => .linked s flags
  sequence hx hf := hx.bind hf
  relocated _ _ _ hx := hx.mapError _

end Follows

variable {setting : Setting} {kept : Path → Prop} {disk : FileSystem}
  (h : setting.disk.AlikeOn kept disk)
include h

theorem resolved?_on (r : Request) : (setting.on disk).resolved? r = setting.resolved? r := by
  unfold resolved?
  split
  · rfl
  · rw [show (setting.on disk).disk = disk from rfl, h.resolve_eq]
    rfl

theorem searchPath_on (specifier : String) :
    (setting.on disk).searchPath specifier = setting.searchPath specifier := by
  unfold searchPath
  rw [show (setting.on disk).disk = disk from rfl, h.isFile_eq]
  rfl

theorem register_on (m : CachedModule Value) (specifier : String) (s : State) :
    (setting.on disk).register (setting.on disk).searchPath m specifier s =
      setting.register setting.searchPath m specifier s := by
  have hsearch : (setting.on disk).searchPath = setting.searchPath :=
    funext fun specifier => searchPath_on h specifier
  have hcanonical : (setting.on disk).disk.canonicalize = setting.disk.canonicalize :=
    funext fun p => h.canonicalize_eq p
  unfold register
  rw [hsearch, hcanonical]

/-- The headers of a target are found and read alike if they are kept. -/
theorem scan_on {f : Frame} {function : Builtin} {directories : List Path} {target : String}
    {scan : HeaderScan} (hf : f.setting = setting) (serve : Request → Eval Value)
    (hscan : f.scan function directories target = .ok scan) (hkept : ∀ p ∈ scan.files, kept p) :
    Frame.scan { f with setting := setting.on disk, serve := serve } function directories target =
      .ok scan := by
  unfold Frame.scan at hscan ⊢
  rw [hf] at hscan
  dsimp only at hscan ⊢
  split
  · next htext =>
    rw [if_pos htext] at hscan
    exact Header.scanText_of_kept h hscan hkept
  · next htext =>
    rw [if_neg htext] at hscan
    have hfind' := Header.find_eq h target directories f.directory
    rcases hfind : Header.find setting.disk target directories f.directory with e | path
    · rw [hfind] at hscan
      cases hscan
    · rw [hfind] at hscan hfind'
      have hfound : Header.find (setting.on disk).disk target directories
          (Frame.directory { f with setting := setting.on disk, serve := serve }) = .ok path :=
        hfind'
      rw [hfound]
      exact Header.scanFile_of_kept h hscan hkept

theorem follows_importConstants {f : Frame} (hf : f.setting = setting)
    (serve : Request → Eval Value) (function : Builtin) (directories : List Path)
    (target : String) :
    setting.Follows kept (f.importConstants function directories target)
      (Frame.importConstants { f with setting := setting.on disk, serve := serve } function
        directories target) := by
  refine ⟨Evolving.importConstants hf function directories target, fun {s v t} hout hkept => ?_⟩
  rcases hscan : f.scan function directories target with (e | _) | scan
  · rw [Frame.importConstants_of_error hscan] at hout
    cases hout
  · rw [Frame.importConstants_of_overflow hscan] at hout
    cases hout
  · rw [Frame.importConstants_of_scan hscan] at hout
    cases hout
    have hfiles : ∀ p ∈ scan.files, kept p := fun p hp => hkept p (List.mem_append_right _ hp)
    exact Frame.importConstants_of_scan (scan_on h hf serve hscan hfiles) s

variable {serve serve' : Request → Eval Value}

theorem follows_execute (hserve : ∀ r, setting.Follows kept (serve r) (serve' r)) (c : Chunk) :
    setting.Follows kept (setting.execute serve c) ((setting.on disk).execute serve' c) :=
  @Eval.Congruence.execute _ (Follows.congruence setting kept) setting (setting.on disk) serve
    serve' c (fun _ hf function directories target =>
      follows_importConstants h hf serve' function directories target)
    fun specifier _ => hserve ⟨specifier, c.origin⟩

/-- A file that is kept is run alike. -/
theorem runFile_on (hserve : ∀ r, setting.Follows kept (serve r) (serve' r)) {p : Path}
    {s t : State} {v : Value} (hrun : setting.runFile serve p s = (.ok v, t))
    (hfile : ∀ loc source, setting.disk.readFile p = .ok (loc, source) → kept loc.toPath)
    (hkept : ∀ q ∈ t.dependencies, kept q) :
    (setting.on disk).runFile serve' p s = (.ok v, t) := by
  obtain ⟨loc, source, c, hread, hchunk, hbody⟩ := runFile_eq_ok.1 hrun
  have hread' := h.readFile_of_kept (hfile loc source hread) hread
  have hbody' := (follows_execute h hserve c).follow hbody hkept
  exact runFile_eq_ok.2 ⟨loc, source, c, hread', hchunk, hbody'⟩

/-- A module is loaded alike if what was recorded until then is kept, and the file that is recorded
for it. -/
theorem loadModule_on (hserve : ∀ r, setting.Follows kept (serve r) (serve' r)) {r : Request}
    {s t : State} {v : Value} {source : ModuleSource}
    (load : setting.loadModule (setting.loader serve) r s = (.ok (v, source), t))
    (hkept : ∀ q ∈ t.dependencies, kept q)
    (hfile : ∀ q, setting.recordedFile? source r.specifier = some q → kept q) :
    (setting.on disk).loadModule ((setting.on disk).loader serve') r s =
      (.ok (v, source), t) := by
  cases loads_iff.2 load with
  | @resolved file _ u found run =>
    have hread : ∀ loc source, setting.disk.readFile file = .ok (loc, source) →
        kept loc.toPath := by
      intro loc source hread
      rw [FileSystem.toPath_of_readFile (canonicalize_of_resolved found) hread]
      exact hfile file rfl
    have hbody : ∀ q ∈ u.dependencies, kept q := fun q hq =>
      hkept q (List.mem_append_left _ hq)
    refine (Loads.resolved ?_ (runFile_on h hserve run hread hbody)).eq
    rw [resolved?_on h, found]
  | own missing own =>
    refine (Loads.own ?_ ?_).eq
    · rw [resolved?_on h, missing]
    · refine ownModule_eq_loaded.2 ?_
      rcases ownModule_eq_loaded.1 own with hbuiltin | ⟨hforeign, p, searched, hrun⟩
      · exact .inl hbuiltin
      · have hread : ∀ loc source, setting.disk.readFile p = .ok (loc, source) →
            kept loc.toPath := fun loc source hread =>
          hfile loc.toPath (templateFile?_of_readFile searched hread)
        refine .inr ⟨hforeign, p, ?_, runFile_on h hserve hrun hread hkept⟩
        rw [searchPath_on h, searched]

/-- Serving a request is followed on the other file system, since a module that is loaded goes into
the cache, and its file is recorded then. -/
theorem follows_serve (hserve : ∀ r, setting.Follows kept (serve r) (serve' r)) (r : Request) :
    setting.Follows kept (setting.serve (setting.loader serve) r)
      ((setting.on disk).serve ((setting.on disk).loader serve') r) := by
  have hevolving := fun r => (hserve r).evolving
  refine ⟨Evolving.serving hevolving r, fun {s v t} hout hkept => ?_⟩
  cases serves_iff.2 hout with
  | cached found => exact (Serves.cached found).eq
  | @loaded _ source u fresh free load =>
    obtain ⟨w, hbody, _, hu⟩ := Evolving.loadModule hevolving load
    have hfresh : u.pop.cache.get? r.key = none := by
      have hw := hbody.get?_of_push fresh
      cases source with
      | resolved file => rw [hu]; exact hw
      | runtime => rw [hu]; exact hw
    have hregister := @register_of_new setting u.pop setting.searchPath ⟨r.key, v, source⟩
      r.specifier hfresh
    rw [show (setting.loader serve).locate = setting.searchPath from rfl, hregister] at hkept
    have hload := loadModule_on h hserve load (fun q hq => hkept q (List.mem_append_left _ hq)) ?_
    · have hserves := Serves.loaded fresh free hload
      rw [show ((setting.on disk).loader serve').locate = (setting.on disk).searchPath from rfl,
        register_on h] at hserves
      exact hserves.eq
    · intro q hq
      cases source with
      | resolved file =>
        cases hq
        rw [hu] at hkept
        refine hkept q (List.mem_append_left _ (List.mem_append_right _ ?_))
        exact List.mem_singleton_self _
      | runtime => exact hkept q (List.mem_append_right _ (Option.mem_toList.2 hq))

theorem follows_require (n : Nat) (r : Request) :
    setting.Follows kept (setting.require n r) ((setting.on disk).require n r) := by
  induction n generalizing r with
  | zero => exact ⟨setting.evolves_require 0 r, fun hout => by cases hout⟩
  | succ n ih => exact follows_serve h ih r

/-- A chunk that comes to its end does so alike. The other file system may allow for another depth of
requests, but neither depth is ever exceeded. -/
theorem follows_runChunk (c : Chunk) :
    setting.Follows kept (setting.runChunk c) ((setting.on disk).runChunk c) := by
  refine ⟨setting.evolves_runChunk c, fun {s v t} hout hkept => ?_⟩
  have hserve := follows_require h (setting.depth c.requests c.origin)
  have hbody := (follows_execute h hserve c).follow hout hkept
  exact runChunk_eq_of_depth hbody fun he => by cases he

end Setting

end ScriptBuild
