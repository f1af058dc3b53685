import Custody.Analysis
import Custody.Code.Exchange
import Custody.Code.Node
import Custody.Code.Path
import Custody.Code.Program
import Custody.Code.Walk
import Custody.Data.Binary
import Custody.Data.Document
import Custody.Data.Sum
import Custody.Data.Table
import Custody.Effect
import Custody.Eval.Access
import Custody.Eval.Failure
import Custody.Eval.Frame
import Custody.Eval.Invoke
import Custody.Eval.Node
import Custody.Eval.Unit
import Custody.Graph.Basic
import Custody.Graph.Components
import Custody.Graph.Dispatch
import Custody.Graph.Edges
import Custody.Graph.Progress
import Custody.Graph.Shared
import Custody.Heap.Basic
import Custody.Heap.Counting
import Custody.Heap.Discipline
import Custody.Heap.Family
import Custody.Heap.Reach
import Custody.Lowering.Classes
import Custody.Lowering.Expr
import Custody.Lowering.Names
import Custody.Lowering.Program
import Custody.Lowering.Stmt
import Custody.Memory
import Custody.Proofs.Code.Paths
import Custody.Proofs.Code.Positions
import Custody.Proofs.Code.Resolution
import Custody.Proofs.Code.Visitors
import Custody.Proofs.Data.Descent
import Custody.Proofs.Data.Ending
import Custody.Proofs.Data.Occurrences
import Custody.Proofs.Data.Partition
import Custody.Proofs.Eval.Advancing
import Custody.Proofs.Eval.Aftermath
import Custody.Proofs.Eval.Agreement
import Custody.Proofs.Eval.Apartness
import Custody.Proofs.Eval.Assigning
import Custody.Proofs.Eval.Blame
import Custody.Proofs.Eval.Cells
import Custody.Proofs.Eval.Chronicle
import Custody.Proofs.Eval.Completion
import Custody.Proofs.Eval.Coupling
import Custody.Proofs.Eval.Dependence
import Custody.Proofs.Eval.Elementary
import Custody.Proofs.Eval.Entry
import Custody.Proofs.Eval.Following
import Custody.Proofs.Eval.Forwarding
import Custody.Proofs.Eval.Guarantee
import Custody.Proofs.Eval.Hoarding
import Custody.Proofs.Eval.Invariant
import Custody.Proofs.Eval.Knowledge
import Custody.Proofs.Eval.Leaving
import Custody.Proofs.Eval.Loops
import Custody.Proofs.Eval.Moves
import Custody.Proofs.Eval.Omission
import Custody.Proofs.Eval.Passages
import Custody.Proofs.Eval.Performing
import Custody.Proofs.Eval.Pessimism
import Custody.Proofs.Eval.Reaching
import Custody.Proofs.Eval.Readiness
import Custody.Proofs.Eval.Reading
import Custody.Proofs.Eval.Recorder
import Custody.Proofs.Eval.Relating
import Custody.Proofs.Eval.Renumbering
import Custody.Proofs.Eval.Rereading
import Custody.Proofs.Eval.Safety
import Custody.Proofs.Eval.Separation
import Custody.Proofs.Eval.Simulation
import Custody.Proofs.Eval.Steps
import Custody.Proofs.Eval.Upkeep
import Custody.Proofs.Eval.Visits
import Custody.Proofs.Graph.Building
import Custody.Proofs.Graph.Components
import Custody.Proofs.Graph.Connectivity
import Custody.Proofs.Graph.Consistency
import Custody.Proofs.Graph.Dispatching
import Custody.Proofs.Graph.Exactness
import Custody.Proofs.Graph.Forest
import Custody.Proofs.Graph.Parts
import Custody.Proofs.Graph.Standing
import Custody.Proofs.Heap.Balance
import Custody.Proofs.Heap.Cascades
import Custody.Proofs.Heap.Chains
import Custody.Proofs.Heap.Collection
import Custody.Proofs.Heap.Decay
import Custody.Proofs.Heap.Draining
import Custody.Proofs.Heap.Evolution
import Custody.Proofs.Heap.Hands
import Custody.Proofs.Heap.Hoarding
import Custody.Proofs.Heap.Index
import Custody.Proofs.Heap.Ledger
import Custody.Proofs.Heap.Misuse
import Custody.Proofs.Heap.Renumbering
import Custody.Proofs.Heap.Searches
import Custody.Proofs.Heap.Seclusion
import Custody.Proofs.Heap.Survival
import Custody.Proofs.Lowering.Analysis
import Custody.Proofs.Lowering.Assignments
import Custody.Proofs.Lowering.Calls
import Custody.Proofs.Lowering.Classes
import Custody.Proofs.Lowering.Conservation
import Custody.Proofs.Lowering.Declarations
import Custody.Proofs.Lowering.Expressions
import Custody.Proofs.Lowering.Keeping
import Custody.Proofs.Lowering.Names
import Custody.Proofs.Lowering.Resolution
import Custody.Proofs.Lowering.Routes
import Custody.Proofs.Lowering.Steps
import Custody.Proofs.Lowering.Tracking
import Custody.Proofs.Lowering.Traversal
import Custody.Proofs.Lowering.Typing
import Custody.Proofs.Lowering.WellScoped
import Custody.Proofs.Memory.Atomicity
import Custody.Proofs.Memory.Growth
import Custody.Proofs.Memory.Hoarding
import Custody.Proofs.Memory.Ownership
import Custody.Proofs.Memory.Scopes
import Custody.Proofs.Memory.Sessions
import Custody.Proofs.Memory.Soundness
import Custody.Proofs.Memory.Variables
import Custody.Proofs.Registry
import Custody.Proofs.Report.Coverage
import Custody.Proofs.Schedule.Completion
import Custody.Proofs.Schedule.Conclusion
import Custody.Proofs.Schedule.Confluence
import Custody.Proofs.Schedule.Cycles
import Custody.Proofs.Schedule.Execution
import Custody.Proofs.Schedule.Greedy
import Custody.Proofs.Schedule.Interleaving
import Custody.Proofs.Schedule.Leastness
import Custody.Proofs.Schedule.Parallel
import Custody.Proofs.Schedule.Precedence
import Custody.Proofs.Schedule.Recording
import Custody.Proofs.Schedule.Resting
import Custody.Proofs.Schedule.Retention
import Custody.Proofs.Schedule.Workers
import Custody.Proofs.Source.Enclosure
import Custody.Proofs.Source.Scoping
import Custody.Proofs.Suppression.Directives
import Custody.Proofs.Suppression.Lines
import Custody.Registry
import Custody.Report
import Custody.Schedule.Result
import Custody.Schedule.Run
import Custody.Settings.BitMask
import Custody.Settings.CommandLine
import Custody.Settings.Level
import Custody.Settings.Options
import Custody.Settings.Plugin
import Custody.Source.Exchange
import Custody.Source.Package
import Custody.Summary
import Custody.Suppression.Directive
import Custody.Suppression.File
import Custody.Text.Enumerated
import Custody.Text.Integer
import Custody.Text.Invisible
import Custody.Text.Printable
import Custody.Text.Quoted
import Custody.UnitId
