import ScriptBuild.Proofs.Import.Evolution

/-!
# What is recorded for what

Each record of a file stands for one module that was put into the cache or for one header that was
read for its constants. The history says which these are. Main statements: `Evolves.balanced` says
that running scripts keeps the records and what they stand for even, and `Evolves.coherent` that the
history and the cache list the same modules.
-/

namespace ScriptBuild

/-- The key, the specifier and the source of the module that was put into the cache. -/
def Event.registration? : Event → Option (String × String × ModuleSource)
  | .registered key specifier source => some (key, specifier, source)
  | _ => none

/-- The headers that were read for an import of constants. -/
def Event.headerFiles : Event → List Path
  | .headers files => files
  | _ => []

namespace State

/-- What was put into the cache, in order. -/
def registrations (s : State) : List (String × String × ModuleSource) :=
  s.history.filterMap Event.registration?

/-- The headers that the imports of constants read, in order. -/
def headerFiles (s : State) : List Path :=
  s.history.flatMap Event.headerFiles

/-- The specifier that the module under a key was asked for with. -/
def specifierOf? (s : State) (key : String) : Option String :=
  (s.registrations.lookup key).map Prod.fst

/-- The history lists the modules that are in the cache, no two of them under one key. -/
structure Coherent (s : State) : Prop where
  listed : s.cache.map (fun m => (m.key, m.source)) = s.registrations.map fun x => (x.1, x.2.2)
  distinct : (s.cache.map (·.key)).Nodup

variable {s : State}

theorem registrations_log (e : Event) :
    (s.log e).registrations = s.registrations ++ e.registration?.toList := by
  simp only [registrations, log, List.filterMap_append, List.filterMap_cons, List.filterMap_nil]
  cases e.registration? <;> rfl

theorem headerFiles_log (e : Event) :
    (s.log e).headerFiles = s.headerFiles ++ e.headerFiles := by
  simp [headerFiles, log]

theorem Coherent.congr {t : State} (hs : s.Coherent) (hcache : t.cache = s.cache)
    (hlist : t.registrations = s.registrations) : t.Coherent := by
  obtain ⟨hlisted, hdistinct⟩ := hs
  rw [← hcache, ← hlist] at hlisted
  exact ⟨hlisted, hcache ▸ hdistinct⟩

theorem registrations_adopt (m : CachedModule Value) (specifier : String) (file : Option Path) :
    (s.adopt m specifier file).registrations =
      s.registrations ++ [(m.key, specifier, m.source)] :=
  registrations_log (.registered m.key specifier m.source)

/-- A module is listed in the history when it is put into the cache. -/
theorem Coherent.adopt (hs : s.Coherent) {m : CachedModule Value} (specifier : String)
    (file : Option Path) (new : s.cache.get? m.key = none) :
    (s.adopt m specifier file).Coherent := by
  obtain ⟨hlisted, hdistinct⟩ := hs
  refine ⟨?_, ?_⟩
  · rw [registrations_adopt, List.map_append, ← hlisted]
    exact List.map_append
  · show (List.map _ (s.cache ++ [_])).Nodup
    rw [List.map_append]
    refine List.nodup_append.2 ⟨hdistinct, List.pairwise_singleton _ _, ?_⟩
    intro key hkey other hother heq
    rw [heq, List.mem_singleton.1 hother] at hkey
    exact Cache.get?_eq_none_iff.1 new hkey

theorem coherent_empty (cFlags linkFlags : List String) :
    (empty.inject cFlags linkFlags).Coherent :=
  ⟨rfl, List.nodup_nil⟩

namespace Coherent

theorem distinct_registrations (hs : s.Coherent) : (s.registrations.map Prod.fst).Nodup := by
  have h := congrArg (List.map Prod.fst) hs.listed
  rw [List.map_map, List.map_map] at h
  exact h ▸ hs.distinct

/-- The specifier of a module in the cache is the one that it was registered with. -/
theorem specifierOf?_eq (hs : s.Coherent) {x : String × String × ModuleSource}
    (hx : x ∈ s.registrations) : s.specifierOf? x.1 = some x.2.1 := by
  obtain ⟨before, after, heq⟩ := List.append_of_mem hx
  have hfirst : ∀ y ∈ before, x.1 ≠ y.1 := by
    intro y hy hkey
    have hdistinct := hs.distinct_registrations
    rw [heq, List.map_append, List.nodup_append] at hdistinct
    exact hdistinct.2.2 y.1 (List.mem_map_of_mem hy) x.1 List.mem_cons_self hkey.symm
  have hlookup : s.registrations.lookup x.1 = some x.2 :=
    List.lookup_eq_some_iff.2 ⟨before, after, heq, fun y hy => bne_iff_ne.2 (hfirst y hy)⟩
  rw [specifierOf?, hlookup]
  rfl

/-- Modules in the cache are counted by their registrations. -/
theorem countP_cache (hs : s.Coherent) (counts : String × ModuleSource → Bool) :
    s.cache.countP (fun m => counts (m.key, m.source)) =
      s.registrations.countP fun x => counts (x.1, x.2.2) := by
  have h := congrArg (List.countP counts) hs.listed
  rwa [List.countP_map, List.countP_map] at h

end Coherent

end State

namespace Setting

variable {setting : Setting} {s t : State}

/-- How often a file should have been recorded: once for each module that the search directories led
to it for, once for each module of the runtime that the templates lead to it for, and once each time
that it was read as a header. -/
def expected (setting : Setting) (s : State) (p : Path) : Nat :=
  s.registrations.countP (fun x => x.2.2 = .resolved p) +
  s.registrations.countP (fun x => x.2.2 = .runtime ∧ setting.templateFile? x.2.1 = some p) +
  s.headerFiles.count p

/-- How often an event makes it expected that a file was recorded. -/
def credit (setting : Setting) (p : Path) : Event → Nat
  | .headers files => files.count p
  | .registered _ specifier source => (setting.recordedFile? source specifier).toList.count p
  | _ => 0

/-- One registration makes one record expected, that of the file of its module. -/
theorem countP_registration (setting : Setting) (key specifier : String) (source : ModuleSource)
    (p : Path) :
    [(key, specifier, source)].countP (fun x => x.2.2 = .resolved p) +
      [(key, specifier, source)].countP
        (fun x => x.2.2 = .runtime ∧ setting.templateFile? x.2.1 = some p) =
      (setting.recordedFile? source specifier).toList.count p := by
  cases source with
  | resolved file =>
    by_cases hfile : file = p
    · simp [recordedFile?, hfile]
    · simp [recordedFile?, hfile]
  | runtime =>
    by_cases hfile : setting.templateFile? specifier = some p
    · simp [recordedFile?, hfile]
    · have hcount : (setting.templateFile? specifier).toList.count p = 0 :=
        List.count_eq_zero.2 fun hp => hfile (Option.mem_toList.1 hp)
      simp [recordedFile?, hfile, hcount]

theorem expected_log (setting : Setting) (s : State) (e : Event) (p : Path) :
    setting.expected (s.log e) p = setting.expected s p + setting.credit p e := by
  simp only [expected, State.registrations_log, State.headerFiles_log, List.countP_append,
    List.count_append]
  cases e with
  | headers files =>
    show _ + 0 + (_ + 0) + (_ + files.count p) = _ + files.count p
    omega
  | registered key specifier source =>
    have hone := setting.countP_registration key specifier source p
    show _ + [(key, specifier, source)].countP _ + (_ + [(key, specifier, source)].countP _) +
      (_ + 0) = _ + (setting.recordedFile? source specifier).toList.count p
    omega
  | read | entered | left => rfl

namespace Evolves

/-- A module is listed in the history when it is put into the cache, and only then. -/
theorem coherent (h : setting.Evolves s t) (hs : s.Coherent) : t.Coherent := by
  induction h with
  | refl => exact hs
  | counted | exported | linked => exact hs.congr rfl rfl
  | imported | read | entered | left =>
    exact hs.congr rfl (by rw [State.registrations_log]; exact List.append_nil _)
  | trans _ _ ih₁ ih₂ => exact ih₂ (ih₁ hs)
  | abandoned _ _ _ ih => exact (ih (hs.congr rfl rfl)).congr rfl rfl
  | @completed s t r v source fresh _ body _ ih =>
    have hpop : t.pop.Coherent := (ih (hs.congr rfl rfl)).congr rfl rfl
    exact hpop.adopt _ _ (body.get?_of_push fresh)

/-- Whatever running scripts records, it records for something. -/
theorem balanced (h : setting.Evolves s t) (p : Path) :
    t.dependencies.count p + setting.expected s p =
      s.dependencies.count p + setting.expected t p := by
  induction h with
  | refl | counted | exported | linked => rfl
  | read s | entered s | left s =>
    rw [expected_log]
    rfl
  | @imported s files texts =>
    rw [expected_log]
    show (s.dependencies ++ files).count p + _ = _ + (setting.expected s p + files.count p)
    rw [List.count_append]
    omega
  | trans _ _ ih₁ ih₂ => omega
  | abandoned _ _ _ ih => exact ih
  | @completed s t r v source fresh _ body _ ih =>
    have hdone : ∀ file, setting.expected (t.pop.adopt ⟨r.key, v, source⟩ r.specifier file) p =
        setting.expected t p + (setting.recordedFile? source r.specifier).toList.count p := fun _ =>
      setting.expected_log t (.registered r.key r.specifier source) p
    rw [hdone]
    show (t.dependencies ++ _).count p + _ = _
    rw [List.count_append]
    have : t.dependencies.count p + setting.expected s p =
        s.dependencies.count p + setting.expected t p := ih
    omega

end Evolves

end Setting

end ScriptBuild
