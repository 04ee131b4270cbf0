import ScriptBuild.Proofs.Import.Evolution

/-!
# The depth of nested requests

Serving a request counts down the depth of nesting that is left. Main statements:
`agrees_require` says that more depth changes nothing unless there was too little, and
`runChunk_ne_tooDeep` and `requireModule_ne_tooDeep` that there never is: each load puts a key on the
stack that was not there, and the requests that can be made have only so many keys.
-/

namespace ScriptBuild

open Script (Chunk)

/-- The second computation does what the first one does, unless the first one is stopped because its
requests are nested too deeply. -/
def Eval.Agrees ⦃α : Type⦄ (x x' : Eval α) : Prop :=
  ∀ s, (x s).1 ≠ .error .tooDeep → x' s = x s

namespace Eval.Agrees

theorem refl {α : Type} (x : Eval α) : Agrees x x :=
  fun _ _ => rfl

theorem eq_of_ne {α : Type} {x x' : Eval α} (hx : Agrees x x') {s : State}
    {outcome : Except Stop α × State} (h : x s = outcome)
    (hne : outcome.1 ≠ .error .tooDeep) : x' s = outcome := by
  rw [hx s (by rwa [h]), h]

theorem bind {α β : Type} {x x' : Eval α} {f f' : α → Eval β} (hx : Agrees x x')
    (hf : ∀ a, Agrees (f a) (f' a)) : Agrees (x >>= f) (x' >>= f') := by
  intro s h
  rw [bind_apply] at h ⊢
  rw [bind_apply]
  rcases hout : x s with ⟨e | a, t⟩
  · rw [hout] at h
    rw [hx.eq_of_ne hout fun he => h (by cases he; rfl)]
  · rw [hout] at h
    rw [hx.eq_of_ne hout fun he => by cases he]
    exact hf a t h

theorem mapError {α : Type} {x x' : Eval α} (hx : Agrees x x') (g : ModuleError → ModuleError) :
    Agrees (x.mapError g) (x'.mapError g) := by
  intro s h
  unfold Eval.mapError at h ⊢
  rw [hx s]
  rcases hout : x s with ⟨(e | _ | _) | _, t⟩
  · exact fun h => by cases h
  · exact fun h => by cases h
  · rw [hout] at h
    exact absurd rfl h
  · exact fun h => by cases h

theorem congruence : Congruence Agrees where
  value _ := refl _
  failure _ _ := refl _
  state := refl _
  counted := refl _
  exported _ _ := refl _
  linked _ := refl _
  sequence hx hf := hx.bind hf
  relocated _ _ _ hx := hx.mapError _

end Eval.Agrees

namespace Setting

variable {setting : Setting} {serve serve' : Request → Eval Value}

theorem agrees_execute (hserve : ∀ r, Eval.Agrees (serve r) (serve' r)) (c : Chunk) :
    Eval.Agrees (setting.execute serve c) (setting.execute serve' c) := by
  refine @Eval.Congruence.execute _ Eval.Agrees.congruence setting setting serve serve' c ?_
    fun specifier _ => hserve ⟨specifier, c.origin⟩
  rintro f rfl function directories target
  exact .refl _

theorem agrees_runFile (hserve : ∀ r, Eval.Agrees (serve r) (serve' r)) (p : Path) :
    Eval.Agrees (setting.runFile serve p) (setting.runFile serve' p) :=
  (Eval.Agrees.refl _).bind fun c => agrees_execute hserve c

theorem agrees_ownModule (hserve : ∀ r, Eval.Agrees (serve r) (serve' r)) (specifier : String) :
    Eval.Agrees (setting.ownModule serve specifier) (setting.ownModule serve' specifier) :=
  Eval.Agrees.congruence.ownModule (agrees_runFile hserve)

theorem agrees_loadModule (hserve : ∀ r, Eval.Agrees (serve r) (serve' r)) (r : Request) :
    Eval.Agrees (setting.loadModule (setting.loader serve) r)
      (setting.loadModule (setting.loader serve') r) := by
  intro s h
  have hrun : ∀ p, Eval.Agrees (setting.runFile serve p) (setting.runFile serve' p) :=
    agrees_runFile hserve
  have hown : Eval.Agrees (setting.ownModule serve r.specifier)
      (setting.ownModule serve' r.specifier) := agrees_ownModule hserve r.specifier
  generalize hout : setting.loadModule (setting.loader serve) r s = outcome at h ⊢
  cases loads_iff.2 hout with
  | @resolved file _ _ found run =>
    exact (Loads.resolved found ((hrun file).eq_of_ne run fun h => by cases h)).eq
  | @resolvedFailed file _ _ found run =>
    exact (Loads.resolvedFailed found ((hrun file).eq_of_ne run fun h => by cases h)).eq
  | @resolvedStopped file stop _ found run final =>
    have hstop : stop ≠ .tooDeep := fun he => h (congrArg Except.error he)
    refine (Loads.resolvedStopped found ((hrun file).eq_of_ne run fun he => hstop ?_) final).eq
    exact Except.error.inj he
  | own missing own => exact (Loads.own missing (hown.eq_of_ne own fun h => by cases h)).eq
  | ownFailed missing own =>
    exact (Loads.ownFailed missing (hown.eq_of_ne own fun he => h (by cases he; rfl))).eq
  | unresolved missing own =>
    exact (Loads.unresolved missing (hown.eq_of_ne own fun h => by cases h)).eq

theorem agrees_serve (hserve : ∀ r, Eval.Agrees (serve r) (serve' r)) (r : Request) :
    Eval.Agrees (setting.serve (setting.loader serve) r)
      (setting.serve (setting.loader serve') r) := by
  intro s h
  have hload : Eval.Agrees (setting.loadModule (setting.loader serve) r)
      (setting.loadModule (setting.loader serve') r) := agrees_loadModule hserve r
  generalize hout : setting.serve (setting.loader serve) r s = outcome at h ⊢
  cases serves_iff.2 hout with
  | cached found => exact (Serves.cached found).eq
  | cycle fresh busy => exact (Serves.cycle fresh busy).eq
  | failed fresh free load =>
    exact (Serves.failed fresh free (hload.eq_of_ne load fun he => h (by cases he; rfl))).eq
  | loaded fresh free load =>
    exact (Serves.loaded fresh free (hload.eq_of_ne load fun h => by cases h)).eq

/-- A request that is not stopped for its depth is served alike with more depth. -/
theorem agrees_require (setting : Setting) {n m : Nat} (h : n ≤ m) (r : Request) :
    Eval.Agrees (setting.require n r) (setting.require m r) := by
  induction n generalizing m r with
  | zero => exact fun s hne => absurd rfl hne
  | succ n ih =>
    obtain ⟨k, rfl⟩ := Nat.exists_eq_add_of_le h
    rw [show n + 1 + k = (n + k) + 1 by omega]
    exact agrees_serve (fun r => ih (Nat.le_add_right n k) r) r

/-- The requests that can be made when the given specifiers are asked for from a given origin. -/
def reachableRequests (setting : Setting) (specifiers : List String) (origin : Option Path) :
    List Request :=
  (setting.reachableSpecifiers specifiers).flatMap fun specifier =>
    (setting.reachableOrigins specifiers origin).map fun file => ⟨specifier, file⟩

section Reachable

variable {specifiers : List String} {origin : Option Path}

theorem mem_reachableRequests {r : Request} :
    r ∈ setting.reachableRequests specifiers origin ↔
      r.specifier ∈ setting.reachableSpecifiers specifiers ∧
        r.origin ∈ setting.reachableOrigins specifiers origin := by
  simp only [reachableRequests, List.mem_flatMap, List.mem_map]
  constructor
  · rintro ⟨specifier, hspecifier, file, hfile, rfl⟩
    exact ⟨hspecifier, hfile⟩
  · rintro ⟨hspecifier, hfile⟩
    exact ⟨_, hspecifier, _, hfile, rfl⟩

theorem depth_eq (setting : Setting) (specifiers : List String) (origin : Option Path) :
    setting.depth specifiers origin =
      (setting.reachableRequests specifiers origin).length + 1 := by
  simp [depth, reachableRequests, List.length_flatMap, List.map_const']

/-- The scripts on the file system ask for what they ask for whichever file they are run as. -/
theorem mem_specifiers {p : Path} {loc : Location} {source specifier : String}
    {file : Option Path} {c : Chunk} (text : setting.disk.readFile p = .ok (loc, source))
    (hchunk : Chunk.ofText source file = .ok c) (h : specifier ∈ c.requests) :
    specifier ∈ setting.specifiers := by
  have hcontent := (FileSystem.readFile_eq_ok.1 text).2
  have hregular : loc ∈ setting.disk.regularFiles := by
    rw [FileSystem.mem_regularFiles, hcontent]
    rfl
  refine List.mem_flatMap.2 ⟨loc, hregular, ?_⟩
  obtain ⟨_, hsame⟩ := Chunk.ofText_of_ofText hchunk none
  rw [hcontent]
  dsimp only
  rw [hsame]
  exact h

/-- What the chunk of a file asks for can be asked for, if the file can be an origin. -/
theorem mem_reachableRequests_of_chunk {p : Path} {loc : Location} {source specifier : String}
    {c : Chunk} (text : setting.disk.readFile p = .ok (loc, source))
    (hchunk : Chunk.ofText source (some p) = .ok c)
    (horigin : some p ∈ setting.reachableOrigins specifiers origin) (h : specifier ∈ c.requests) :
    ⟨specifier, some p⟩ ∈ setting.reachableRequests specifiers origin :=
  mem_reachableRequests.2 ⟨List.mem_append_right _ (mem_specifiers text hchunk h), horigin⟩

theorem mem_reachableOrigins_of_resolved {r : Request} {file : Path}
    (found : setting.resolved? r = some file) :
    some file ∈ setting.reachableOrigins specifiers origin := by
  obtain ⟨p, hprobe⟩ := exists_probe_of_resolved found
  obtain ⟨loc, _, hregular, rfl⟩ := FileSystem.probe_eq_some.1 hprobe
  refine List.mem_cons_of_mem _ (List.mem_map_of_mem (List.mem_append_left _ ?_))
  exact List.mem_map_of_mem (FileSystem.mem_regularFiles.2 hregular)

theorem mem_reachableOrigins_of_searchPath {specifier : String} {p : Path}
    (h : specifier ∈ setting.reachableSpecifiers specifiers)
    (searched : setting.searchPath specifier = some p) :
    some p ∈ setting.reachableOrigins specifiers origin := by
  have hcandidate : p ∈ setting.templateCandidates specifier :=
    List.mem_of_find?_eq_some searched
  refine List.mem_cons_of_mem _ (List.mem_map_of_mem (List.mem_append_right _ ?_))
  exact List.mem_flatMap.2 ⟨specifier, h, hcandidate⟩

end Reachable

/-- The number of those requests whose keys are not being loaded. -/
def vacant (requests : List Request) (s : State) : Nat :=
  requests.countP fun r => r.key ∉ s.loading

theorem vacant_congr {requests : List Request} {s t : State} (h : t.loading = s.loading) :
    vacant requests t = vacant requests s := by
  rw [vacant, vacant, h]

/-- While a request is being loaded, fewer keys are left. -/
theorem vacant_push_lt {requests : List Request} {r : Request} {s : State} (hr : r ∈ requests)
    (free : r.key ∉ s.loading) : vacant requests (s.push r.key) < vacant requests s := by
  have hle : ∀ rs : List Request, vacant rs (s.push r.key) ≤ vacant rs s := by
    intro rs
    refine List.countP_mono_left fun x _ hx => ?_
    have hfree := of_decide_eq_true hx
    exact decide_eq_true fun hin => hfree (List.mem_append_left _ hin)
  obtain ⟨before, after, rfl⟩ := List.append_of_mem hr
  have hbefore := hle before
  have hafter := hle after
  have hbusy := s.mem_push r.key
  simp only [vacant, List.countP_append, List.countP_cons, hbusy, free, not_true, not_false_eq_true,
    decide_true, decide_false, if_true] at hbefore hafter ⊢
  simp only [Bool.false_eq_true, if_false]
  omega

/-- The computation changes the state only as running scripts does, and a depth greater than the
number of vacant keys is enough for it. -/
def Shallow (setting : Setting) (requests : List Request) (n : Nat) ⦃α : Type⦄ (x : Eval α) : Prop :=
  setting.Evolving x ∧ ∀ s, vacant requests s < n → (x s).1 ≠ .error .tooDeep

namespace Shallow

variable {requests : List Request} {n : Nat}

theorem bind {α β : Type} {x : Eval α} {f : α → Eval β} (hx : setting.Shallow requests n x)
    (hf : ∀ a, setting.Shallow requests n (f a)) : setting.Shallow requests n (x >>= f) := by
  refine ⟨hx.1.bind fun a => (hf a).1, fun s hs => ?_⟩
  have hfirst := hx.2 s hs
  rw [Eval.bind_apply]
  rcases hout : x s with ⟨e | a, t⟩
  · rw [hout] at hfirst
    exact fun he => hfirst (by cases he; rfl)
  · refine (hf a).2 t ?_
    rw [vacant_congr (hx.1.evolves hout).loading_eq]
    exact hs

theorem mapError {α : Type} {x : Eval α} (hx : setting.Shallow requests n x)
    (g : ModuleError → ModuleError) : setting.Shallow requests n (x.mapError g) := by
  refine ⟨Eval.Makes.mapError hx.1 g, fun s hs => ?_⟩
  have h := hx.2 s hs
  unfold Eval.mapError
  rcases hout : x s with ⟨(e | _ | _) | _, t⟩
  · exact fun he => by cases he
  · exact fun he => by cases he
  · rw [hout] at h
    exact absurd rfl h
  · exact fun he => by cases he

theorem congruence (setting : Setting) (requests : List Request) (n : Nat) :
    Eval.Congruence fun _ x _ => setting.Shallow requests n x where
  value _ := ⟨fun s => .refl s, fun _ _ h => by cases h⟩
  failure _ _ := ⟨fun s => .refl s, fun _ _ h => by cases h⟩
  state := ⟨fun s => .refl s, fun _ _ h => by cases h⟩
  counted := ⟨fun s => .counted s, fun _ _ h => by cases h⟩
  exported name c := ⟨fun s => .exported s name c, fun _ _ h => by cases h⟩
  linked flags := ⟨fun s => .linked s flags, fun _ _ h => by cases h⟩
  sequence hx hf := hx.bind hf
  relocated _ _ _ hx := hx.mapError _

theorem execute (hserve : ∀ r ∈ requests, setting.Shallow requests n (serve r)) {c : Chunk}
    (hc : ∀ specifier ∈ c.requests, ⟨specifier, c.origin⟩ ∈ requests) :
    setting.Shallow requests n (setting.execute serve c) := by
  refine @Eval.Congruence.execute _ (congruence setting requests n) setting setting serve serve c
    ?_ fun specifier h => hserve _ (hc specifier h)
  intro f hf function directories target
  refine ⟨Evolving.importConstants hf function directories target, fun s _ => ?_⟩
  rcases hscan : f.scan function directories target with (e | _) | scan
  · rw [Frame.importConstants_of_error hscan]
    exact fun h => by cases h
  · rw [Frame.importConstants_of_overflow hscan]
    exact fun h => by cases h
  · rw [Frame.importConstants_of_scan hscan]
    exact fun h => by cases h

end Shallow

section Bounded

variable {specifiers : List String} {origin : Option Path} {n : Nat}

theorem runFile_ne_tooDeep
    (hserve : ∀ r ∈ setting.reachableRequests specifiers origin,
      setting.Shallow (setting.reachableRequests specifiers origin) n (serve r))
    {p : Path} (hp : some p ∈ setting.reachableOrigins specifiers origin) {s : State}
    (hs : vacant (setting.reachableRequests specifiers origin) s < n) :
    (setting.runFile serve p s).1 ≠ .error .tooDeep := by
  unfold runFile
  rw [Eval.bind_apply]
  rcases hread : setting.disk.readFile p with cause | ⟨loc, source⟩
  · rw [load_of_error hread]
    exact fun h => by cases h
  · rw [load_of_text hread]
    rcases hchunk : Chunk.ofText source (some p) with e | c
    · exact fun h => by cases h
    · obtain ⟨horigin, _⟩ := Chunk.ofText_of_ofText hchunk none
      refine (Shallow.execute hserve fun specifier h => ?_).2 _ hs
      rw [horigin]
      exact mem_reachableRequests_of_chunk hread hchunk hp h

theorem ownModule_ne_tooDeep
    (hserve : ∀ r ∈ setting.reachableRequests specifiers origin,
      setting.Shallow (setting.reachableRequests specifiers origin) n (serve r))
    {specifier : String} (hspecifier : specifier ∈ setting.reachableSpecifiers specifiers)
    {s : State} (hs : vacant (setting.reachableRequests specifiers origin) s < n) :
    (setting.ownModule serve specifier s).1 ≠ .error .tooDeep := by
  intro he
  obtain ⟨_, p, searched, run⟩ := ownModule_eq_error.1 (Prod.ext he rfl)
  exact runFile_ne_tooDeep hserve (mem_reachableOrigins_of_searchPath hspecifier searched) hs
    (congrArg Prod.fst run)

/-- Serving a request puts a vacant key on the stack before it serves others. -/
theorem shallow_serve (hevolving : ∀ r, setting.Evolving (serve r))
    (hserve : ∀ r ∈ setting.reachableRequests specifiers origin,
      setting.Shallow (setting.reachableRequests specifiers origin) n (serve r))
    {r : Request} (hr : r ∈ setting.reachableRequests specifiers origin) :
    setting.Shallow (setting.reachableRequests specifiers origin) (n + 1)
      (setting.serve (setting.loader serve) r) := by
  refine ⟨Evolving.serving hevolving r, fun s hs => ?_⟩
  generalize hout : setting.serve (setting.loader serve) r s = outcome
  cases serves_iff.2 hout with
  | cached | cycle | loaded => exact fun h => by cases h
  | @failed e t fresh free load =>
    rintro ⟨⟩
    have hpush : vacant (setting.reachableRequests specifiers origin) (s.push r.key) < n := by
      have := vacant_push_lt hr free
      omega
    cases loads_iff.2 load with
    | @resolvedStopped file _ _ found run _ =>
      have hentered : vacant (setting.reachableRequests specifiers origin)
        ((s.push r.key).log (.entered ⟨file, r.specifier⟩)) < n := hpush
      refine runFile_ne_tooDeep hserve (mem_reachableOrigins_of_resolved found) hentered ?_
      exact congrArg Prod.fst run
    | ownFailed missing own =>
      refine ownModule_ne_tooDeep hserve (mem_reachableRequests.1 hr).1 hpush ?_
      exact congrArg Prod.fst own

theorem shallow_require (setting : Setting) (specifiers : List String) (origin : Option Path)
    (n : Nat) : ∀ r ∈ setting.reachableRequests specifiers origin,
      setting.Shallow (setting.reachableRequests specifiers origin) n (setting.require n r) := by
  induction n with
  | zero => exact fun r _ => ⟨setting.evolves_require 0 r, fun s hs => absurd hs (Nat.not_lt_zero _)⟩
  | succ n ih => exact fun r hr => shallow_serve (setting.evolves_require n) ih hr

theorem vacant_lt_depth (setting : Setting) (specifiers : List String) (origin : Option Path)
    (s : State) : vacant (setting.reachableRequests specifiers origin) s <
      setting.depth specifiers origin := by
  rw [depth_eq]
  exact Nat.lt_succ_of_le List.countP_le_length

end Bounded

/-- A chunk is never stopped because its requests are nested too deeply. -/
theorem runChunk_ne_tooDeep (setting : Setting) (c : Chunk) (s : State) :
    (setting.runChunk c s).1 ≠ .error .tooDeep := by
  refine (Shallow.execute (shallow_require setting c.requests c.origin _) ?_).2 s
    (setting.vacant_lt_depth c.requests c.origin s)
  intro specifier h
  exact mem_reachableRequests.2 ⟨List.mem_append_left _ h, List.mem_cons_self⟩

/-- Nor is a request. -/
theorem requireModule_ne_tooDeep (setting : Setting) (r : Request) (s : State) :
    (setting.requireModule r s).1 ≠ .error .tooDeep := by
  refine (shallow_require setting [r.specifier] r.origin _ r ?_).2 s
    (setting.vacant_lt_depth [r.specifier] r.origin s)
  exact mem_reachableRequests.2
    ⟨List.mem_append_left _ (List.mem_singleton_self _), List.mem_cons_self⟩

/-- At whatever depth a chunk is run without being stopped for it, it comes to the same. -/
theorem runChunk_eq_of_depth {n : Nat} {c : Chunk} {s : State}
    {outcome : Except Stop Value × State} (h : setting.execute (setting.require n) c s = outcome)
    (hne : outcome.1 ≠ .error .tooDeep) : setting.runChunk c s = outcome := by
  rcases Nat.le_total n (setting.depth c.requests c.origin) with hle | hle
  · exact (agrees_execute (setting.agrees_require hle) c).eq_of_ne h hne
  · rw [← h]
    exact (agrees_execute (setting.agrees_require hle) c s (setting.runChunk_ne_tooDeep c s)).symm

end Setting

end ScriptBuild
