import Inference.Settings
import Inference.Device.Placement
import Inference.Model.Input
import Inference.Model.Output
import Inference.Cache
import Inference.Queue.Pool
import Inference.Queue.Relay
import Inference.Queue.Session
import Inference.Sink.Schedule
import Inference.Depot.Descriptors
import Inference.Engine
import Inference.Adapter.Labelled
import Inference.Adapter.StandIn
import Inference.Runner.Session
import Inference.Tensor.Record
import Inference.Proofs.Gate.Agenda
import Inference.Proofs.Gate.Census
import Inference.Proofs.Gate.Instances
import Inference.Proofs.Gate.Shutting
import Inference.Proofs.Gate.Sound
import Inference.Proofs.Gate.Steps
import Inference.Proofs.Machine
import Inference.Proofs.Queue.Cargo
import Inference.Proofs.Queue.Steps
import Inference.Proofs.Queue.Turns
import Inference.Proofs.Queue.Waiting
import Inference.Proofs.Queue.Withholding
import Inference.Proofs.Sink.Counters
import Inference.Proofs.Sink.Ledger
import Inference.Proofs.Sink.Running
import Inference.Proofs.Sink.Sound
import Inference.Proofs.Sink.Steps
import Inference.Proofs.Tally
import Inference.Proofs.Sink.Drain
import Inference.Proofs.Cache
import Inference.Proofs.Depot.Calls
import Inference.Proofs.Depot.Staleness
import Inference.Proofs.Device.Placement
import Inference.Proofs.Device.Allocation
import Inference.Proofs.Device.Choice
import Inference.Proofs.Gate.Closing
import Inference.Proofs.Gate.Progress
import Inference.Proofs.Gate.Stopping
import Inference.Proofs.Queue.Refinement
import Inference.Proofs.Queue.Shelf
import Inference.Proofs.Routine
import Inference.Proofs.Serving
import Inference.Proofs.Queue.Spilling
import Inference.Proofs.Bytes
import Inference.Proofs.Tensor.Record
import Inference.Proofs.Files
import Inference.Proofs.Depot.Alone
import Inference.Proofs.Depot.Caching
import Inference.Proofs.Depot.Restoring
import Inference.Proofs.Runner.Recovery
import Inference.Proofs.Cache.Budget
import Inference.Proofs.Gate.Routing
import Inference.Proofs.Gate.Circulation
import Inference.Proofs.Gate.Idleness
import Inference.Proofs.Runner.Asking
import Inference.Proofs.Runner.Routing
import Inference.Proofs.Depot.Meeting
import Inference.Proofs.Sink.Staff
import Inference.Proofs.Sink.Exact
import Inference.Proofs.Sink.Stopping
import Inference.Proofs.Sink.Refusing
import Inference.Proofs.Sink.Noticing
import Inference.Proofs.Sink.Progress
import Inference.Proofs.Sink.Restarting
import Inference.Proofs.Descriptor
import Inference.Proofs.Cache.Recency
import Inference.Proofs.Runner.Journal
import Inference.Proofs.Runner.Protocol
import Inference.Proofs.Runner.Loading
import Inference.Proofs.Depot.Replacing
import Inference.Proofs.Queue.Residence
import Inference.Proofs.Tensor.Shape
import Inference.Proofs.Device.Preference
import Inference.Proofs.Descriptor.Listing
import Inference.Proofs.Queue.Custody
import Inference.Proofs.Queue.Ending
import Inference.Proofs.Depot.Descriptors
import Inference.Proofs.Device.Version
