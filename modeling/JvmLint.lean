import JvmLint.Command.Help
import JvmLint.Command.Options
import JvmLint.Command.Run
import JvmLint.Finding.Basic
import JvmLint.Finding.Format
import JvmLint.Finding.Lint
import JvmLint.Finding.Null
import JvmLint.Finding.Report
import JvmLint.Format.CallSite
import JvmLint.Format.Check
import JvmLint.Format.Declaration
import JvmLint.Format.Flag
import JvmLint.Format.Sample
import JvmLint.Format.Specifier
import JvmLint.Format.Strict
import JvmLint.Input.FileTree
import JvmLint.Input.Load
import JvmLint.Json.Decoder
import JvmLint.Json.Draft
import JvmLint.Json.Number
import JvmLint.Json.Token
import JvmLint.Json.Value
import JvmLint.Main
import JvmLint.Nullness.Action
import JvmLint.Nullness.Analysis
import JvmLint.Nullness.Basic
import JvmLint.Nullness.Flow
import JvmLint.Nullness.Library
import JvmLint.Nullness.Policy
import JvmLint.Nullness.Solver
import JvmLint.Nullness.Store
import JvmLint.Nullness.Transfer
import JvmLint.Proofs.Nullness.Action
import JvmLint.Proofs.Nullness.Graph
import JvmLint.Proofs.Nullness.Order
import JvmLint.Proofs.Nullness.Path
import JvmLint.Proofs.Nullness.Transfer
import JvmLint.Type.Annotations
import JvmLint.Type.Basic
import JvmLint.Type.Descriptor
import JvmLint.Type.Hierarchy
import JvmLint.Type.Reader
import JvmLint.Unit.Basic
import JvmLint.Unit.Body
import JvmLint.Unit.Call
import JvmLint.Unit.Decode
import JvmLint.Unit.Member
import JvmLint.Proofs.Nullness.Visit
import JvmLint.Proofs.Nullness.Worklist
import JvmLint.Proofs.Nullness.FixedPoint
import JvmLint.Proofs.Nullness.LeastSolution
import JvmLint.Proofs.Nullness.Height
import JvmLint.Proofs.Nullness.Trace
import JvmLint.Proofs.Nullness.Termination
import JvmLint.Proofs.Nullness.Trust
import JvmLint.Proofs.Nullness.Refinement
import JvmLint.Proofs.Nullness.Assignment
import JvmLint.Proofs.Nullness.Split
import JvmLint.Proofs.Nullness.Monotone
import JvmLint.Proofs.Nullness.EvaluationOrder
import JvmLint.Proofs.Nullness.LoopInvariant
import JvmLint.Proofs.Nullness.Reachability
import JvmLint.Proofs.Finding.Namesakes
import JvmLint.Proofs.Outcome
import JvmLint.Proofs.Format.Pattern
import JvmLint.Proofs.Format.Grammar
import JvmLint.Proofs.Format.Positions
import JvmLint.Proofs.Format.Header
import JvmLint.Proofs.Format.Inlining
import JvmLint.Proofs.Format.ExtraArguments
import JvmLint.Proofs.Format.NullSamples
import JvmLint.Proofs.Type.Subclass
import JvmLint.Proofs.Finding.Completeness
import JvmLint.Proofs.Finding.UnitOrder
import JvmLint.Proofs.Format.Written
import JvmLint.Proofs.Format.Concatenation
import JvmLint.Proofs.Format.SpecifierText
import JvmLint.Proofs.Type.Declared
import JvmLint.Proofs.Type.Subtype
import JvmLint.Proofs.Nullness.Joins
import JvmLint.Proofs.Nullness.Receivers
import JvmLint.Proofs.Finding.Proven
import JvmLint.Proofs.Finding.StaticAccess
import JvmLint.Proofs.Nullness.Frame
import JvmLint.Proofs.Format.Conditional
import JvmLint.Proofs.Type.Spelling
import JvmLint.Proofs.Input.Loading
import JvmLint.Proofs.Nullness.Indexing
