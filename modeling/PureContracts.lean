import PureContracts.Text.Quote
import PureContracts.Source.Position
import PureContracts.Source.Token
import PureContracts.Source.Scan
import PureContracts.Error
import PureContracts.Form.Basic
import PureContracts.Form.Read
import PureContracts.Form.Layout
import PureContracts.Expr.Basic
import PureContracts.Expr.Render
import PureContracts.Function
import PureContracts.Json.Basic
import PureContracts.Json.Write
import PureContracts.Json.View
import PureContracts.Bindings
import PureContracts.Lowering.Rule
import PureContracts.Lowering.Table
import PureContracts.Lowering.Expression
import PureContracts.Event
import PureContracts.Trace
import PureContracts.Definition.Outline
import PureContracts.Definition.Compile
import PureContracts.Compilation
import PureContracts.Text.Utf8
import PureContracts.Text.Hex
import PureContracts.Digest.Sha256
import PureContracts.Artifact
import PureContracts.Text.Split
import PureContracts.Boundary
import PureContracts.Command.Path
import PureContracts.Command.Basic
import PureContracts.Command.Arguments
import PureContracts.Command.Help
import PureContracts.Command.Log
import PureContracts.Command.Workspace
import PureContracts.Command.Respond
import PureContracts.Command.Run
import PureContracts.Main
import PureContracts.Proofs.Lowering.Offence
import PureContracts.Proofs.Lowering.Inversion
import PureContracts.Proofs.Form.Grammar
import PureContracts.Proofs.Definition.Acceptance
import PureContracts.Proofs.Lowering.NormalForm
import PureContracts.Proofs.Source.Lexical
import PureContracts.Proofs.Source.Parentheses
import PureContracts.Proofs.Form.Fault
import PureContracts.Proofs.Form.Diagnosis
import PureContracts.Proofs.Form.RoundTrip
import PureContracts.Proofs.Compilation.Concatenation
import PureContracts.Proofs.Compilation.Words
import PureContracts.Proofs.Text.Separation
import PureContracts.Proofs.Artifact.Unambiguous
import PureContracts.Proofs.Text.Balance
import PureContracts.Proofs.Expr.Legible
import PureContracts.Proofs.Json.Lossless
import PureContracts.Proofs.Source.Arrangement
import PureContracts.Proofs.Source.Spans
import PureContracts.Proofs.Compilation.Batch
import PureContracts.Proofs.Compilation.Failure
import PureContracts.Proofs.Command.Files
import PureContracts.Proofs.Command.Effects
import PureContracts.Proofs.Compilation.Nesting
import PureContracts.Proofs.Boundary.ZeroFree
import PureContracts.Proofs.Boundary.Transmission
import PureContracts.Proofs.Compilation.Events
import PureContracts.Proofs.Definition.Spelling
import PureContracts.Proofs.Command.Agreement
import PureContracts.Proofs.Compilation.Relevance
import PureContracts.Proofs.Form.OneLine
import PureContracts.Proofs.Lowering.Unguarded
import PureContracts.Proofs.Artifact.Lines
import PureContracts.Proofs.Command.Files
