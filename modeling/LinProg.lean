import LinProg.Backend
import LinProg.BranchAndBound
import LinProg.CommandLine
import LinProg.Config
import LinProg.Decimal.Binary64
import LinProg.Decimal.Layout
import LinProg.Decimal.Shortest
import LinProg.Event
import LinProg.FileTree
import LinProg.Json.Basic
import LinProg.Json.Fault
import LinProg.Json.Infinity
import LinProg.Json.Lexer
import LinProg.Json.Parser
import LinProg.Json.Path
import LinProg.Json.Printer
import LinProg.Json.Token
import LinProg.LogText
import LinProg.Logged
import LinProg.LpText
import LinProg.Main
import LinProg.Model
import LinProg.Problem.Basic
import LinProg.Problem.Bounds
import LinProg.Proofs.Choice
import LinProg.Proofs.Decimal.Doubles
import LinProg.Proofs.Decimal.Integers
import LinProg.Proofs.Decimal.Rounding
import LinProg.Proofs.Decimal.Shortest
import LinProg.Proofs.Iteration
import LinProg.Proofs.IterationLimit
import LinProg.Proofs.Json.Literal
import LinProg.Proofs.Json.NumberText
import LinProg.Proofs.Json.Paths
import LinProg.Proofs.Json.Scanning
import LinProg.Proofs.Json.Strings
import LinProg.Proofs.LinearForm
import LinProg.Proofs.LpText.Bounds
import LinProg.Proofs.LpText.HeadLine
import LinProg.Proofs.LpText.Identifiers
import LinProg.Proofs.LpText.Lines
import LinProg.Proofs.LpText.Rows
import LinProg.Proofs.LpText.Unambiguous
import LinProg.Proofs.LpText.Words
import LinProg.Proofs.LpText.Wrapping
import LinProg.Proofs.LpText.Writable
import LinProg.Proofs.MessageLevel
import LinProg.Proofs.Model.Classified
import LinProg.Proofs.Model.Meaning
import LinProg.Proofs.Model.Outline
import LinProg.Proofs.OppositeDirection
import LinProg.Proofs.Presolving
import LinProg.Proofs.Problem.ByName
import LinProg.Proofs.Problem.Feasible
import LinProg.Proofs.Problem.Made
import LinProg.Proofs.RangedRow
import LinProg.Proofs.Rational
import LinProg.Proofs.Registry.Declarations
import LinProg.Proofs.Registry.Indices
import LinProg.Proofs.Request.Agreement
import LinProg.Proofs.Request.Callback
import LinProg.Proofs.Result.Agreement
import LinProg.Proofs.Result.Collected
import LinProg.Proofs.Result.Reading
import LinProg.Proofs.Result.RoundTrip
import LinProg.Proofs.Rounds.Budgets
import LinProg.Proofs.Rounds.Callback
import LinProg.Proofs.Rounds.Direct
import LinProg.Proofs.Rounds.Steps
import LinProg.Proofs.Search.Boxes
import LinProg.Proofs.Search.Coverage
import LinProg.Proofs.Search.Gap
import LinProg.Proofs.Search.Mirrors
import LinProg.Proofs.Search.Nodes
import LinProg.Proofs.Search.Pivots
import LinProg.Proofs.Search.Rays
import LinProg.Proofs.Search.Rounding
import LinProg.Proofs.Search.Selection
import LinProg.Proofs.Search.Steps
import LinProg.Proofs.Search.Unbounded
import LinProg.Proofs.Search.Verdicts
import LinProg.Proofs.Simplex.Accuracy
import LinProg.Proofs.Simplex.Certificates
import LinProg.Proofs.Simplex.Extension
import LinProg.Proofs.Simplex.IdleConstraints
import LinProg.Proofs.Simplex.InfeasibleVerdict
import LinProg.Proofs.Simplex.LinearSystem
import LinProg.Proofs.Simplex.PivotChoice
import LinProg.Proofs.Simplex.Progress
import LinProg.Proofs.Simplex.RatioTest
import LinProg.Proofs.Simplex.SameTableau
import LinProg.Proofs.Simplex.ShadowPrices
import LinProg.Proofs.Simplex.Steps
import LinProg.Proofs.Simplex.Termination
import LinProg.Proofs.Simplex.Verdicts
import LinProg.Proofs.SparseVector.Cleaning
import LinProg.Proofs.SparseVector.Compaction
import LinProg.Proofs.SparseVector.Dense
import LinProg.Proofs.SparseVector.Entries
import LinProg.Proofs.SparseVector.History
import LinProg.Proofs.SparseVector.InPlace
import LinProg.Proofs.SparseVector.Stored
import LinProg.Proofs.SparseVector.Valid
import LinProg.Proofs.Spec.Decoding
import LinProg.Proofs.Spec.Edits
import LinProg.Proofs.Spec.Format
import LinProg.Proofs.Spec.Refusals
import LinProg.Proofs.StandardForm.Columns
import LinProg.Proofs.StandardForm.Equivalence
import LinProg.Proofs.StandardForm.Forms
import LinProg.Proofs.StandardForm.Image
import LinProg.Proofs.StandardForm.Renumbering
import LinProg.Proofs.StandardForm.Rows
import LinProg.Proofs.StandardForm.SplitRow
import LinProg.Proofs.Storage.Access
import LinProg.Proofs.Storage.Grid
import LinProg.Proofs.Storage.InitialGrid
import LinProg.Proofs.Storage.Machine
import LinProg.Proofs.Storage.Phases
import LinProg.Proofs.Storage.Placement
import LinProg.Proofs.Storage.Runs
import LinProg.Proofs.Storage.Search
import LinProg.Proofs.Storage.Solutions
import LinProg.Proofs.Storage.Solver
import LinProg.Proofs.Storage.StandardForm
import LinProg.Proofs.Tableau.BasicPoint
import LinProg.Proofs.Tableau.Basis
import LinProg.Proofs.Tableau.BlandRule
import LinProg.Proofs.Tableau.Equation
import LinProg.Proofs.Tableau.Extension
import LinProg.Proofs.Tableau.Feasible
import LinProg.Proofs.Tableau.IdleConstraint
import LinProg.Proofs.Tableau.Initial
import LinProg.Proofs.Tableau.Layout
import LinProg.Proofs.Tableau.Multipliers
import LinProg.Proofs.Tableau.PhaseTwo
import LinProg.Proofs.Tableau.Pivot
import LinProg.Proofs.Tableau.ReducedCosts
import LinProg.Proofs.Tableau.System
import LinProg.Proofs.Thinning
import LinProg.Registry
import LinProg.Request
import LinProg.Result.Output
import LinProg.Result.Reader
import LinProg.Result.Values
import LinProg.Rounds
import LinProg.Scalar
import LinProg.Simplex
import LinProg.Solution
import LinProg.SparseVector
import LinProg.Spec.Basic
import LinProg.Spec.Decode
import LinProg.Spec.Error
import LinProg.Spec.Options
import LinProg.StandardForm
import LinProg.Tableau
import LinProg.Text.Quoted
import LinProg.Text.Unprintable
