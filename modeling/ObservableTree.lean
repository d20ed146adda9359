import ObservableTree.Address.Parser
import ObservableTree.View.Parser
import ObservableTree.Resource.Read
import ObservableTree.Node.RunLoop
import ObservableTree.Observer
import ObservableTree.Trace
import ObservableTree.Simulation.Scenario
import ObservableTree.Proofs.Chunk
import ObservableTree.Proofs.Reading
import ObservableTree.Proofs.Retrieval
import ObservableTree.Proofs.Runs
import ObservableTree.Proofs.Sweeping
import ObservableTree.Proofs.Slots
import ObservableTree.Proofs.Staleness
import ObservableTree.Proofs.Numeral
import ObservableTree.Proofs.AddressText
import ObservableTree.Proofs.Document
import ObservableTree.Proofs.Freshness
import ObservableTree.Proofs.Restart
import ObservableTree.Proofs.Agenda
import ObservableTree.Proofs.Commands
import ObservableTree.Proofs.Timers
import ObservableTree.Proofs.Termination
import ObservableTree.Proofs.Splitting
import ObservableTree.Proofs.Punctuality
import ObservableTree.Proofs.Interruption
import ObservableTree.Proofs.Debouncing
import ObservableTree.Proofs.Lookup
import ObservableTree.Proofs.Replay
import ObservableTree.Proofs.Wake
import ObservableTree.Proofs.Polling
import ObservableTree.Proofs.Unobserved
import ObservableTree.Proofs.Passivity
import ObservableTree.Proofs.Untouched
import ObservableTree.Proofs.Sequence
import ObservableTree.Proofs.Completion
import ObservableTree.Proofs.Presence
import ObservableTree.Proofs.Fetching
import ObservableTree.Proofs.Planned
import ObservableTree.Proofs.Crowd
import ObservableTree.Proofs.Snapshots
import ObservableTree.Proofs.Observing
import ObservableTree.Proofs.EarlyStop
import ObservableTree.Proofs.Evictions
import ObservableTree.Proofs.Queue
import ObservableTree.Proofs.Ledger
import ObservableTree.Proofs.Accounting
import ObservableTree.Proofs.Filling
import ObservableTree.Proofs.BoundedMap
import ObservableTree.Proofs.CatchUp
import ObservableTree.Proofs.FirstCome
import ObservableTree.Proofs.CanonicalText
import ObservableTree.Proofs.Decision
import ObservableTree.Proofs.RawOffset
import ObservableTree.Proofs.Installation
import ObservableTree.Proofs.Arrivals
import ObservableTree.Proofs.Sessions
import ObservableTree.Proofs.LiveTimer
import ObservableTree.Proofs.Words
import ObservableTree.Proofs.TotalLoss
import ObservableTree.Proofs.Urgency
import ObservableTree.Proofs.WholeWrites
