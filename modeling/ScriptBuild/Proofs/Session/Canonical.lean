import ScriptBuild.Proofs.Import.Canonical
import ScriptBuild.Proofs.Session.Keys

/-!
# The records of a session are canonical

In every state of a session that only runs scripts and asks for modules, between its steps and inside
of them, a file is recorded by its one canonical path, however it was reached. Main statement:
`records_canonical`.
-/

namespace ScriptBuild

namespace Setting

variable {setting : Setting} {r : Request} {s t : State} {file : Path}

/-- The path by which the file is reached that is recorded with a module: the first candidate in the
search directories that is a file, or else the first one under the templates. -/
def spelling? (setting : Setting) (r : Request) : Option Path :=
  (((setting.candidates r).find? fun c => setting.disk.isFile c.path).map (·.path)).or
    (setting.searchPath r.specifier)

theorem spelling?_of_found (h : setting.Found r file) :
    ∃ p, setting.spelling? r = some p ∧ setting.disk.canonicalize p = .ok file := by
  obtain ⟨before, c, after, hcandidates, hbefore, hfile, hcanonical⟩ := h
  have hfind : (setting.candidates r).find? (fun c => setting.disk.isFile c.path) = some c := by
    refine List.find?_eq_some_iff_append.2 ⟨hfile, before, after, hcandidates, fun d hd => ?_⟩
    rw [hbefore d hd]
    rfl
  refine ⟨c.path, ?_, hcanonical⟩
  rw [spelling?, hfind]
  rfl

theorem spelling?_of_missing (missing : setting.resolved? r = none) :
    setting.spelling? r = setting.searchPath r.specifier := by
  have hfind : (setting.candidates r).find? (fun c => setting.disk.isFile c.path) = none := by
    refine List.find?_eq_none.2 fun c hc => ?_
    rw [unfound_iff.2 missing c hc]
    exact Bool.false_ne_true
  rw [spelling?, hfind]
  rfl

/-- The last record of a request that loads its module is that of the module, if there is a file to
record: the place to which the path leads by which that file was reached. -/
theorem getLast?_of_require {n : Nat} {v : Value} {p : Path} (fresh : s.cache.get? r.key = none)
    (h : setting.require (n + 1) r s = (.ok v, t)) (spelled : setting.spelling? r = some p) :
    ∃ loc, setting.disk.locate .reach p = .ok loc ∧
      t.dependencies.getLast? = some loc.toPath := by
  cases recordsLast_of_require fresh h with
  | @resolved file u found _ _ last =>
    obtain ⟨q, hq, hcanonical⟩ := spelling?_of_found (found_iff.2 found)
    rw [spelled] at hq
    cases hq
    obtain ⟨loc, hloc, rfl⟩ := FileSystem.canonicalize_eq_ok.1 hcanonical
    exact ⟨loc, hloc, by rw [last, List.getLast?_concat]⟩
  | @own u missing _ _ last =>
    rw [spelling?_of_missing missing] at spelled
    have hfile : setting.disk.isFile p = true := (List.find?_eq_some_iff_append.1 spelled).1
    obtain ⟨file, hprobe⟩ : ∃ file, setting.disk.probe p = some file := by
      refine Option.ne_none_iff_exists'.1 fun hnone => ?_
      rw [FileSystem.probe_eq_none_iff.1 hnone] at hfile
      cases hfile
    obtain ⟨loc, hloc, _, rfl⟩ := FileSystem.probe_eq_some.1 hprobe
    refine ⟨loc, hloc, ?_⟩
    rw [last, templateFile?_eq_some.2 ⟨p, spelled, hprobe⟩]
    exact List.getLast?_concat

end Setting

namespace Session

/-- In every session that starts afresh and only runs scripts and asks for modules, at every moment
between its steps and inside of them, each file that was recorded and each file that a module in the
cache was loaded from is given by the canonical path of a regular file, and two records of one file
are the same. A new module is recorded by the path of the place to which the path leads by which a
request reached its file, so all that lead to one place have one record. -/
theorem records_canonical (s : Session) (cFlags linkFlags : List String)
    (fresh : s.state = State.empty.inject cFlags linkFlags) (xs : List Step)
    (hxs : ∀ x ∈ xs, x.isImport = true) (x : Step) (hx : x.isImport = true) :
    let now := s.afterSteps xs
    (∀ outer m, now.setting.Within (now.Passes x) outer m →
      now.setting.Canonical m.state ∧
      ∀ p ∈ m.state.dependencies, ∀ q ∈ m.state.dependencies,
        now.setting.disk.locate .reach p = now.setting.disk.locate .reach q → p = q) ∧
    ∀ n r v u w p, u.cache.get? r.key = none → now.setting.require (n + 1) r u = (.ok v, w) →
      now.setting.spelling? r = some p → ∃ loc, now.setting.disk.locate .reach p = .ok loc ∧
        w.dependencies.getLast? = some loc.toPath := by
  intro now
  obtain ⟨hsetting, hevolves⟩ := evolves_afterSteps hxs (s := s)
  have hstart : s.setting.Canonical s.state := by
    rw [fresh]
    exact s.setting.canonical_empty cFlags linkFlags
  have hnow : now.setting.Canonical now.state := hsetting ▸ hevolves.canonical hstart
  refine ⟨fun outer m hwithin => ?_, fun n r v u w p => Setting.getLast?_of_require⟩
  have hm : now.setting.Canonical m.state :=
    hwithin.canonical fun m hm => (hm.evolves hx).canonical hnow
  exact ⟨hm, fun p hp q hq => (hm.recorded p hp).eq_of_locate (hm.recorded q hq)⟩

/-- A file is recorded twice by one path: it was reached through a link among the search directories,
and above the file that asked for it. -/
theorem linked_module_canonical :
    let disk := FileSystem.ofEntries ⟨"/"⟩
      [(⟨"/link"⟩, .link ⟨"/real"⟩), (⟨"/real/m.t"⟩, .file (.text "return 1\n"))]
    let s : Session := ⟨.plain {}, ⟨disk, ⟨[⟨"/link"⟩], "t"⟩, [], .checked⟩, State.empty.inject [] []⟩
    let x := Step.require ⟨".m", some ⟨"/real/sub/x.t"⟩⟩
    let now := s.afterSteps [.require ⟨"m", some ⟨"/main.t"⟩⟩]
    (now.step x).2.state.dependencies = [⟨"/real/m.t"⟩, ⟨"/real/m.t"⟩] ∧
      now.setting.disk.IsCanonicalFile ⟨"/real/m.t"⟩ := by
  intro disk s x now
  have hrecords : (now.step x).2.state.dependencies = [⟨"/real/m.t"⟩, ⟨"/real/m.t"⟩] := by
    decide +kernel
  have hxs : ∀ x ∈ [Step.require ⟨"m", some ⟨"/main.t"⟩⟩], x.isImport = true := by
    simp [Step.isImport]
  have hcanonical := (records_canonical s [] [] rfl _ hxs x rfl).1 [] _ (.direct (.after x))
  refine ⟨hrecords, hcanonical.1.recorded _ ?_⟩
  show _ ∈ (now.step x).2.state.dependencies
  rw [hrecords]
  exact List.mem_cons_self

end Session

end ScriptBuild
