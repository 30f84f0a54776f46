import Metamatch.Proofs.Clients
import Metamatch.Proofs.Computation
import Metamatch.Proofs.Construction
import Metamatch.Proofs.Determined
import Metamatch.Proofs.Graph.After
import Metamatch.Proofs.Graph.Balance
import Metamatch.Proofs.Graph.Links
import Metamatch.Proofs.Graph.Observers
import Metamatch.Proofs.Issued
import Metamatch.Proofs.Json.RoundTrip
import Metamatch.Proofs.Lockstep
import Metamatch.Proofs.Names
import Metamatch.Proofs.Ordered
import Metamatch.Proofs.Renaming
import Metamatch.Proofs.Run.Admission
import Metamatch.Proofs.Run.Arrangement
import Metamatch.Proofs.Run.Batches
import Metamatch.Proofs.Run.Calls
import Metamatch.Proofs.Run.Comparison
import Metamatch.Proofs.Run.Completion
import Metamatch.Proofs.Run.Configs
import Metamatch.Proofs.Run.Consumers
import Metamatch.Proofs.Run.Counters
import Metamatch.Proofs.Run.Equations
import Metamatch.Proofs.Run.Finish
import Metamatch.Proofs.Run.Ground
import Metamatch.Proofs.Run.Invariant
import Metamatch.Proofs.Run.Meaning
import Metamatch.Proofs.Run.MissPolicies
import Metamatch.Proofs.Run.Notices
import Metamatch.Proofs.Run.Placeholders
import Metamatch.Proofs.Run.Pruning
import Metamatch.Proofs.Run.Relaxing
import Metamatch.Proofs.Run.Reseeding
import Metamatch.Proofs.Run.Returning
import Metamatch.Proofs.Run.Schedule
import Metamatch.Proofs.Run.Seeding
import Metamatch.Proofs.Run.Start
import Metamatch.Proofs.Run.SweepNumbers
import Metamatch.Proofs.Run.Sweeps
import Metamatch.Proofs.Run.Takeover
import Metamatch.Proofs.Run.Attribution
import Metamatch.Proofs.Run.Beside
import Metamatch.Proofs.Run.Tasks
import Metamatch.Proofs.Run.Timing
import Metamatch.Proofs.Saved
import Metamatch.Proofs.Search
import Metamatch.Proofs.Steady
import Metamatch.Proofs.Surroundings
import Metamatch.Rehearsal
import Metamatch.Run
import Metamatch.Saved.Config
import Metamatch.Saved.Result
import Metamatch.Saved.Source
import Metamatch.Proofs.Run.Isolation
import Metamatch.Proofs.Mirror.Graph
import Metamatch.Proofs.Mirror.Search
import Metamatch.Proofs.Mirror.Run
import Metamatch.Proofs.Run.Histories
import Metamatch.Proofs.Mirror.Layout
import Metamatch.Proofs.Run.Layouts
import Metamatch.Proofs.Run.Saving
import Metamatch.Proofs.Dumps
import Metamatch.Proofs.Minutes
import Metamatch.Proofs.Scans
import Metamatch.Proofs.Run.Accounts
import Metamatch.Proofs.Run.Ledgers
import Metamatch.Proofs.Run.Failures
import Metamatch.Proofs.Holdings
import Metamatch.Proofs.Run.Refusals
import Metamatch.Proofs.Catalog
import Metamatch.Proofs.Members
import Metamatch.Proofs.Identities
import Metamatch.Proofs.Spellings
import Metamatch.Proofs.Registry.Interning
import Metamatch.Proofs.Registry.Sources
import Metamatch.Proofs.Catalog.Positions
import Metamatch.Proofs.Registry.Handles
import Metamatch.Proofs.Registry.Content
import Metamatch.Proofs.SetTests
import Metamatch.Proofs.Masks
import Metamatch.Proofs.Run.Graphs
import Metamatch.Proofs.Moves
import Metamatch.Proofs.Run.Freezing
import Metamatch.Proofs.Registry.Loading
