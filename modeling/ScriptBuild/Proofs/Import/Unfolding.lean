import ScriptBuild.Proofs.Import.Depth

/-!
# Serving without counting

The depth of nesting bounds the recursion and nothing else. Main statements: `requireModule_eq`,
`runChunk_eq` and `importOwn_eq` say that a request, a chunk and a look-up come to what they come to
when each request inside of them is served as one of its own, with no depth to count.
-/

namespace ScriptBuild

open Script (Chunk)

namespace Setting

/-- At whatever depth a request is served without being stopped for it, it comes to the same. -/
theorem agrees_requireModule (setting : Setting) (n : Nat) (r : Request) :
    Eval.Agrees (setting.require n r) (setting.requireModule r) := by
  intro s h
  rcases Nat.le_total n (setting.depth [r.specifier] r.origin) with hle | hle
  · exact setting.agrees_require hle r s h
  · exact (setting.agrees_require hle r s (setting.requireModule_ne_tooDeep r s)).symm

/-- A request is served by a loader that serves requests. -/
theorem requireModule_eq (setting : Setting) (r : Request) :
    setting.requireModule r = setting.serve (setting.loader setting.requireModule) r := by
  funext s
  -- The depth of a request is a successor, so it is served once and counted down.
  refine (agrees_serve (setting.agrees_requireModule _) r s ?_).symm
  exact setting.requireModule_ne_tooDeep r s

/-- A chunk is run with its requests served. -/
theorem runChunk_eq (setting : Setting) (c : Chunk) :
    setting.runChunk c = setting.execute setting.requireModule c := by
  funext s
  exact (agrees_execute (setting.agrees_requireModule _) c s (setting.runChunk_ne_tooDeep c s)).symm

/-- A look-up among the modules of the loader is never stopped for its depth. -/
theorem importOwn_ne_tooDeep (setting : Setting) (specifier : String) (s : State) :
    (setting.importOwn specifier s).1 ≠ .error .tooDeep := by
  refine ownModule_ne_tooDeep (shallow_require setting [specifier] none _) ?_
    (setting.vacant_lt_depth [specifier] none s)
  exact List.mem_append_left _ (List.mem_singleton_self _)

/-- A loader's own module is run with its requests served. -/
theorem importOwn_eq (setting : Setting) (specifier : String) :
    setting.importOwn specifier = setting.ownModule setting.requireModule specifier := by
  funext s
  exact (agrees_ownModule (setting.agrees_requireModule _) specifier s
    (setting.importOwn_ne_tooDeep specifier s)).symm

end Setting

end ScriptBuild
