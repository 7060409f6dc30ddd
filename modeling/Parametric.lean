import Parametric.CommandLine
import Parametric.Main
import Parametric.Proofs.Graph.Index
import Parametric.Proofs.Graph.Reach
import Parametric.Proofs.Graph.Sound
import Parametric.Proofs.Graph.History
import Parametric.Proofs.Cache
import Parametric.Proofs.Formula.Calculator
import Parametric.Proofs.Graph.Downstream
import Parametric.Proofs.Update.History
import Parametric.Proofs.Workbench.Action
import Parametric.Proofs.Workbench.Cycles
import Parametric.Proofs.Workbench.Idle
import Parametric.Proofs.Update.Line
import Parametric.Proofs.Update.Moves
import Parametric.Proofs.Update.Conservation
import Parametric.Proofs.Update.Cascade
import Parametric.Proofs.Decimal.Bits
import Parametric.Proofs.Decimal.Nearest
import Parametric.Proofs.Decimal.Numeral
import Parametric.Proofs.Formula.Lexemes
import Parametric.Proofs.Formula.Printing
import Parametric.Proofs.Formula.Nesting
import Parametric.Proofs.Formula.RoundTrip
import Parametric.Proofs.Formula.Acceptance
import Parametric.Proofs.Formula.Finite
import Parametric.Proofs.Workbench.Ownership
import Parametric.Proofs.Workbench.Writes
import Parametric.Proofs.Workbench.Interference
import Parametric.Proofs.Workbench.Objects
import Parametric.Proofs.Workbench.InPlace
import Parametric.Proofs.Workbench.Current
import Parametric.Proofs.Update.Turn
import Parametric.Proofs.Workbench.Transit
import Parametric.Proofs.Workbench.Dragged
import Parametric.Proofs.Workbench.Standing
import Parametric.Proofs.Workbench.Arrival
import Parametric.Proofs.Scene.Revision
import Parametric.Proofs.Workbench.Asked
import Parametric.Proofs.Workbench.Removal
import Parametric.Proofs.Workbench.Displaced
import Parametric.Proofs.Workbench.Successor
import Parametric.Proofs.Workbench.Aftermath
import Parametric.Proofs.Workbench.Bereft
import Parametric.Proofs.Scene.Listed
import Parametric.Proofs.Scene.Boxes
import Parametric.Proofs.Workbench.Contributions
import Parametric.Proofs.Workbench.Tuned
import Parametric.Proofs.Workbench.Staging
import Parametric.Proofs.Workbench.Coalescing
import Parametric.Proofs.Workbench.Addition
import Parametric.Proofs.Workbench.Containers
import Parametric.Proofs.Update.Rest
import Parametric.Proofs.Update.Draining
import Parametric.Proofs.Update.Ledger
import Parametric.Proofs.Update.Storage
import Parametric.Proofs.Update.Split
import Parametric.Proofs.Workbench.Constants
import Parametric.Proofs.Workbench.Recovery
import Parametric.Proofs.Workbench.Consumers
import Parametric.Proofs.Workbench.Quiescence
import Parametric.Proofs.Workbench.Newcomer
import Parametric.Proofs.Workbench.Replacement
import Parametric.Proofs.Workbench.Limits
import Parametric.Proofs.Formula.Agreement
import Parametric.Proofs.Workbench.Informed
import Parametric.Proofs.Workbench.Confluence
import Parametric.Proofs.Workbench.Refusal
import Parametric.Proofs.Update.Agenda
import Parametric.Proofs.Workbench.Destined
import Parametric.Proofs.Workbench.Overwrites
import Parametric.Proofs.Workbench.Written
import Parametric.Proofs.Graph.Search
import Parametric.Proofs.Graph.Rejection
import Parametric.Proofs.Graph.Visits
import Parametric.Proofs.Update.Preemption
import Parametric.Proofs.Update.Revisits
import Parametric.Proofs.Graph.Order
import Parametric.Proofs.Formula.Failure
import Parametric.Proofs.Formula.Depth
import Parametric.Proofs.Formula.Issues
import Parametric.Proofs.Formula.Rules
import Parametric.Proofs.Formula.Watched
import Parametric.Proofs.Formula.Refinement
import Parametric.Proofs.Recency
import Parametric.Proofs.Decimal.Whole
import Parametric.Proofs.Scene.Arrivals
import Parametric.Proofs.Formula.Foresight
import Parametric.Proofs.Formula.Cutting
import Parametric.Proofs.Formula.Malformed
import Parametric.Proofs.Workbench.Isolation
import Parametric.Proofs.Lens
import Parametric.Proofs.Bounds
import Parametric.Proofs.Formula.Defined
import Parametric.Proofs.Formula.Height
