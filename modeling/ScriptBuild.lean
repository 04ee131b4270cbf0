import ScriptBuild.Arithmetic
import ScriptBuild.Artifact
import ScriptBuild.Build
import ScriptBuild.CommandLine
import ScriptBuild.Configuration
import ScriptBuild.Constant
import ScriptBuild.Depfile
import ScriptBuild.Digest
import ScriptBuild.Environment
import ScriptBuild.Evaluation.Chunk
import ScriptBuild.Evaluation.Expr
import ScriptBuild.Evaluation.Setting
import ScriptBuild.Evaluation.State
import ScriptBuild.Exports
import ScriptBuild.Fields
import ScriptBuild.FileSystem.Alike
import ScriptBuild.FileSystem.Basic
import ScriptBuild.FileSystem.Build
import ScriptBuild.FileSystem.Place
import ScriptBuild.FileSystem.Temporary
import ScriptBuild.Header.Directive
import ScriptBuild.Header.Literal
import ScriptBuild.Header.Scan
import ScriptBuild.Header.Search
import ScriptBuild.Import.Cache
import ScriptBuild.Import.Error
import ScriptBuild.Import.Loader
import ScriptBuild.Import.Request
import ScriptBuild.Import.Serve
import ScriptBuild.Machine
import ScriptBuild.Machine.Plain
import ScriptBuild.Main
import ScriptBuild.ObjectModule
import ScriptBuild.Path.Basic
import ScriptBuild.Path.Normal
import ScriptBuild.Path.Raw
import ScriptBuild.Proofs.Artifact.Emission
import ScriptBuild.Proofs.Artifact.Saving
import ScriptBuild.Proofs.Build.Complete
import ScriptBuild.Proofs.Build.Effects
import ScriptBuild.Proofs.Build.Precise
import ScriptBuild.Proofs.Build.Run
import ScriptBuild.Proofs.Depfile.Record
import ScriptBuild.Proofs.Depfile.Relative
import ScriptBuild.Proofs.Evaluation.Blame
import ScriptBuild.Proofs.Evaluation.Congruence
import ScriptBuild.Proofs.Evaluation.Definitions
import ScriptBuild.Proofs.Evaluation.Doings
import ScriptBuild.Proofs.Evaluation.Include
import ScriptBuild.Proofs.Evaluation.Moments
import ScriptBuild.Proofs.FileSystem.Alike
import ScriptBuild.Proofs.FileSystem.Detour
import ScriptBuild.Proofs.FileSystem.Lexical
import ScriptBuild.Proofs.FileSystem.Temporary
import ScriptBuild.Proofs.FileSystem.Ways
import ScriptBuild.Proofs.FileSystem.Write
import ScriptBuild.Proofs.Header.Alike
import ScriptBuild.Proofs.Header.Constants
import ScriptBuild.Proofs.Header.Files
import ScriptBuild.Proofs.Header.Inlining
import ScriptBuild.Proofs.Header.Integer
import ScriptBuild.Proofs.Header.Negation
import ScriptBuild.Proofs.Header.Quoted
import ScriptBuild.Proofs.Import.Activity
import ScriptBuild.Proofs.Import.Asker
import ScriptBuild.Proofs.Import.Canonical
import ScriptBuild.Proofs.Import.Causes
import ScriptBuild.Proofs.Import.Chain
import ScriptBuild.Proofs.Import.Closure
import ScriptBuild.Proofs.Import.Depth
import ScriptBuild.Proofs.Import.Evolution
import ScriptBuild.Proofs.Import.Exported
import ScriptBuild.Proofs.Import.Growth
import ScriptBuild.Proofs.Import.Keys
import ScriptBuild.Proofs.Import.Ledger
import ScriptBuild.Proofs.Import.Location
import ScriptBuild.Proofs.Import.Nesting
import ScriptBuild.Proofs.Import.Overflow
import ScriptBuild.Proofs.Import.Relative
import ScriptBuild.Proofs.Import.Replay
import ScriptBuild.Proofs.Import.Running
import ScriptBuild.Proofs.Import.Serving
import ScriptBuild.Proofs.Import.Stack
import ScriptBuild.Proofs.Import.Strategy
import ScriptBuild.Proofs.Import.Unfolding
import ScriptBuild.Proofs.Occurrences
import ScriptBuild.Proofs.Path.Normal
import ScriptBuild.Proofs.Path.NormalForm
import ScriptBuild.Proofs.Path.Pieces
import ScriptBuild.Proofs.Path.Relative
import ScriptBuild.Proofs.Resolution.Candidates
import ScriptBuild.Proofs.Resolution.Climb
import ScriptBuild.Proofs.Resolution.Confined
import ScriptBuild.Proofs.Resolution.Grammar
import ScriptBuild.Proofs.Script.Agreement
import ScriptBuild.Proofs.Script.Cursor
import ScriptBuild.Proofs.Script.Fault
import ScriptBuild.Proofs.Script.Integer
import ScriptBuild.Proofs.Script.Language
import ScriptBuild.Proofs.Script.Layout
import ScriptBuild.Proofs.Script.Position
import ScriptBuild.Proofs.Script.Progress
import ScriptBuild.Proofs.Script.Rendering
import ScriptBuild.Proofs.Script.Returns
import ScriptBuild.Proofs.Script.Spelling
import ScriptBuild.Proofs.Script.WellFormed
import ScriptBuild.Proofs.Script.Writing
import ScriptBuild.Proofs.Session.Canonical
import ScriptBuild.Proofs.Session.Changes
import ScriptBuild.Proofs.Session.Closure
import ScriptBuild.Proofs.Session.Exports
import ScriptBuild.Proofs.Session.Growth
import ScriptBuild.Proofs.Session.Headers
import ScriptBuild.Proofs.Session.Keys
import ScriptBuild.Proofs.Session.Once
import ScriptBuild.Proofs.Session.Records
import ScriptBuild.Proofs.Session.Stack
import ScriptBuild.Proofs.Text.Numeral
import ScriptBuild.Proofs.Text.Pieces
import ScriptBuild.Resolution
import ScriptBuild.Script.Chunk
import ScriptBuild.Script.Parser
import ScriptBuild.Script.Position
import ScriptBuild.Script.Statement
import ScriptBuild.Script.SyntaxError
import ScriptBuild.Script.Token
import ScriptBuild.Session
import ScriptBuild.Specifier
import ScriptBuild.Text.Blank
import ScriptBuild.Text.Numeral
import ScriptBuild.Text.Pieces
import ScriptBuild.Value
