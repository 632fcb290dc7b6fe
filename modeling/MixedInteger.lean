import MixedInteger.CommandLine.Arguments
import MixedInteger.CommandLine.Run
import MixedInteger.Constraint
import MixedInteger.Decimal.Reader
import MixedInteger.Decimal.Shortest
import MixedInteger.Decimal.Style
import MixedInteger.Extended
import MixedInteger.Fault
import MixedInteger.Json.Basic
import MixedInteger.Json.Fields
import MixedInteger.Json.Reader
import MixedInteger.Json.Writer
import MixedInteger.Main
import MixedInteger.Model
import MixedInteger.Model.Description
import MixedInteger.Model.Edit
import MixedInteger.Model.Report
import MixedInteger.Model.Solve
import MixedInteger.Options
import MixedInteger.Options.Json
import MixedInteger.OrderedMap
import MixedInteger.PivotHistory
import MixedInteger.Priority
import MixedInteger.Proofs.AddedTerms
import MixedInteger.Proofs.Arena
import MixedInteger.Proofs.Basis
import MixedInteger.Proofs.BasisChanges
import MixedInteger.Proofs.BasisInvariant
import MixedInteger.Proofs.BranchingChoice
import MixedInteger.Proofs.Building
import MixedInteger.Proofs.Choices
import MixedInteger.Proofs.CompactForm
import MixedInteger.Proofs.DeclaredProgram
import MixedInteger.Proofs.Denotation
import MixedInteger.Proofs.Describing
import MixedInteger.Proofs.DualSimplex
import MixedInteger.Proofs.EditMeaning
import MixedInteger.Proofs.Exchanges
import MixedInteger.Proofs.FaithfulResults
import MixedInteger.Proofs.FloatWords
import MixedInteger.Proofs.Growth
import MixedInteger.Proofs.Incumbents
import MixedInteger.Proofs.IntegerOptimality
import MixedInteger.Proofs.KeptSolutions
import MixedInteger.Proofs.Loading
import MixedInteger.Proofs.Meaning
import MixedInteger.Proofs.ModelState
import MixedInteger.Proofs.ModelSteps
import MixedInteger.Proofs.ObjectiveDescent
import MixedInteger.Proofs.ObjectiveRows
import MixedInteger.Proofs.Operation
import MixedInteger.Proofs.Optimality
import MixedInteger.Proofs.Outcome
import MixedInteger.Proofs.OwnRows
import MixedInteger.Proofs.Partition
import MixedInteger.Proofs.Penalties
import MixedInteger.Proofs.PivotInverse
import MixedInteger.Proofs.PivotRun
import MixedInteger.Proofs.ProperValues
import MixedInteger.Proofs.Refinement
import MixedInteger.Proofs.Registry
import MixedInteger.Proofs.Relaxation
import MixedInteger.Proofs.Removals
import MixedInteger.Proofs.Repetition
import MixedInteger.Proofs.Reruns
import MixedInteger.Proofs.Rollback
import MixedInteger.Proofs.RoundTrip
import MixedInteger.Proofs.RoundingCuts
import MixedInteger.Proofs.RoundingLimit
import MixedInteger.Proofs.RoundingState
import MixedInteger.Proofs.Rows
import MixedInteger.Proofs.SearchNodes
import MixedInteger.Proofs.SearchOptimality
import MixedInteger.Proofs.SearchState
import MixedInteger.Proofs.Selection
import MixedInteger.Proofs.SolveTwice
import MixedInteger.Proofs.TableauEdits
import MixedInteger.Proofs.Termination
import MixedInteger.Proofs.Trail
import MixedInteger.Proofs.Validity
import MixedInteger.Proofs.ValueFree
import MixedInteger.Proofs.Verdicts
import MixedInteger.Scalar
import MixedInteger.Solution
import MixedInteger.Solution.Json
import MixedInteger.Tableau.Basic
import MixedInteger.Tableau.Branching
import MixedInteger.Tableau.Cut
import MixedInteger.Tableau.Dictionary
import MixedInteger.Tableau.Edit
import MixedInteger.Tableau.Listing
import MixedInteger.Tableau.Load
import MixedInteger.Tableau.Places
import MixedInteger.Tableau.Search
import MixedInteger.Tableau.Selection
import MixedInteger.Tableau.Simplex
import MixedInteger.Tableau.Validate
import MixedInteger.Text.Blank
import MixedInteger.Text.Quoted
import MixedInteger.Variable
import MixedInteger.Word
