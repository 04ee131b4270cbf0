import ScriptBuild.Evaluation.Expr
import ScriptBuild.Script.Chunk

/-!
# Running chunks

The statements of a chunk run in order. The value of a chunk is that of its `return`, or `true`.
-/

namespace ScriptBuild

open Script (Chunk Statement)

/-- Exports a value that has a form outside of scripts. -/
def Frame.export (f : Frame) (name : String) (v : Value) : Eval Unit := do
  match Constant.ofValue? v with
  | some c => modify fun s => { s with exports := s.exports.define name c }
  | none => f.fail (.notExportable name v.typeName)

/-- Adds a link flag, or all flags of a list. -/
def Frame.link (f : Frame) (v : Value) : Eval Unit := do
  match v with
  | .str flag => modify (·.inject [] [flag])
  | .list _ items => modify (·.inject [] (items.map Value.display))
  | v => f.fail (.notLinkable v.typeName)

/-- Runs statements in a frame. -/
def Frame.run (f : Frame) : List Statement → Eval Value
  | [] => pure (.bool true)
  | s :: statements => do
    let here := { f with position := s.position }
    let v ← here.eval s.action.expr
    match s.action with
    | .local name _ => Frame.run { f with locals := (name, v) :: f.locals } statements
    | .export name _ =>
      here.export name v
      f.run statements
    | .link _ =>
      here.link v
      f.run statements
    | .evaluate _ => f.run statements
    | .return _ => pure v

/-- Runs a chunk whose requests are served by `serve`. -/
def Setting.execute (setting : Setting) (serve : Request → Eval Value) (c : Chunk) : Eval Value :=
  Frame.run ⟨setting, serve, c.origin, [], .start⟩ c.statements

/-- Reads the chunk of a file. Its origin is the path as it was given. -/
def Setting.load (setting : Setting) (p : Path) : Eval Chunk := do
  match setting.disk.readFile p with
  | .error cause => Eval.fail (.io p cause.message)
  | .ok (loc, source) =>
    modify (·.log (.read loc.toPath))
    match Chunk.ofText source (some p) with
    | .ok c => pure c
    | .error e => Eval.fail (.parse e.fault.message ⟨p, e.position⟩)

end ScriptBuild
