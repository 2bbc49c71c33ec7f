import TimeMerge.Main
import TimeMerge.Resequencer
import TimeMerge.Proofs.Departure
import TimeMerge.Proofs.Ledger
import TimeMerge.Proofs.Sweeps
import TimeMerge.Proofs.Calls
import TimeMerge.Proofs.Order
import TimeMerge.Proofs.Frontier
import TimeMerge.Proofs.Delivery
import TimeMerge.Proofs.Rounds
import TimeMerge.Proofs.Supply
import TimeMerge.Proofs.Tracking
import TimeMerge.Proofs.Turns
import TimeMerge.Proofs.Ingestion
import TimeMerge.Proofs.Attempts
import TimeMerge.Proofs.Commands
import TimeMerge.Proofs.Progress
import TimeMerge.Proofs.Forwarding
import TimeMerge.Proofs.Reception
import TimeMerge.Proofs.Interleaving
import TimeMerge.Proofs.Confluence
import TimeMerge.Proofs.Refusals
import TimeMerge.Proofs.Phases
import TimeMerge.Proofs.Termination
import TimeMerge.Proofs.Losses
import TimeMerge.Proofs.Merging
import TimeMerge.Proofs.Outcomes
import TimeMerge.Proofs.Handing
import TimeMerge.Proofs.Interruption
import TimeMerge.Proofs.Failure
import TimeMerge.Proofs.Legible
import TimeMerge.Proofs.Spelling
import TimeMerge.Proofs.Printing
import TimeMerge.Proofs.Documents
import TimeMerge.Proofs.Rereading
import TimeMerge.Proofs.Remerging
import TimeMerge.Proofs.Precedence
import TimeMerge.Proofs.Teardown
import TimeMerge.Proofs.Completion
import TimeMerge.Proofs.Requests
import TimeMerge.Proofs.Deliveries
import TimeMerge.Proofs.Flushes
import TimeMerge.Proofs.Disorder
import TimeMerge.Proofs.Shortcut
import TimeMerge.Proofs.Rejection
import TimeMerge.Proofs.Verdicts
import TimeMerge.Proofs.Backlog
import TimeMerge.Proofs.Fairness
import TimeMerge.Proofs.Grammar
import TimeMerge.Proofs.Wrapping
import TimeMerge.Proofs.Linewise
import TimeMerge.Proofs.Columns
import TimeMerge.Proofs.Overlaying
import TimeMerge.Proofs.Headings
import TimeMerge.Proofs.Base64
import TimeMerge.Proofs.SpecText
import TimeMerge.Proofs.Disabling
import TimeMerge.Proofs.Admission
