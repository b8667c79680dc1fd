import DataBinding.Script.Run
import DataBinding.Proofs.Moves
import DataBinding.Proofs.Growth
import DataBinding.Proofs.Holding
import DataBinding.Proofs.Turns
import DataBinding.Proofs.Reachable
import DataBinding.Proofs.Coherence
import DataBinding.Proofs.Silence
import DataBinding.Proofs.Visits
import DataBinding.Proofs.Controls
import DataBinding.Proofs.Editing
import DataBinding.Proofs.TwoWay
import DataBinding.Proofs.Marks
import DataBinding.Proofs.Telling
import DataBinding.Proofs.Storing
import DataBinding.Proofs.Marking
import DataBinding.Proofs.Forest
import DataBinding.Proofs.Binding
import DataBinding.Proofs.Synced
import DataBinding.Proofs.Mounts
import DataBinding.Proofs.Rounds
import DataBinding.Proofs.Sessions
import DataBinding.Proofs.Following
import DataBinding.Proofs.Places
import DataBinding.Proofs.Observing
import DataBinding.Proofs.Reactive
import DataBinding.Proofs.Circuits
import DataBinding.Proofs.Cycles
import DataBinding.Proofs.Markup
import DataBinding.Proofs.Registration
import DataBinding.Proofs.LateKeys
import DataBinding.Proofs.Panics
import DataBinding.Proofs.Enlisting
import DataBinding.Proofs.Guards
import DataBinding.Proofs.Newcomers
import DataBinding.Proofs.Values
import DataBinding.Proofs.Deliveries
import DataBinding.Proofs.Installing
import DataBinding.Proofs.Plans
import DataBinding.Proofs.Captions
import DataBinding.Proofs.Mirrors
import DataBinding.Proofs.Separation
import DataBinding.Proofs.Isolation
import DataBinding.Proofs.Scanning
import DataBinding.Proofs.Queues
import DataBinding.Proofs.Snapshots
import DataBinding.Proofs.Dispatches
import DataBinding.Proofs.Balance
import DataBinding.Proofs.Levels
import DataBinding.Proofs.Listeners
import DataBinding.Proofs.Resolving
import DataBinding.Proofs.Documents
import DataBinding.Proofs.Acceptance
import DataBinding.Proofs.Rounding
import DataBinding.Proofs.Shortest
import DataBinding.Proofs.Coercion
