import Pipeworks.Rehearsal
import Pipeworks.Control.Basic
import Pipeworks.Control.Stream
import Pipeworks.Main
import Pipeworks.Proofs.Graph.CycleSearch
import Pipeworks.Proofs.Plan.Release
import Pipeworks.Proofs.Validation.WellFormed
import Pipeworks.Proofs.Plan.Order
import Pipeworks.Proofs.Topology.Wiring
import Pipeworks.Proofs.Graph.Route
import Pipeworks.Proofs.Plan.Cluster
import Pipeworks.Proofs.Worker.Delivery
import Pipeworks.Proofs.Subprocess
import Pipeworks.Proofs.Supervisor.Scene
import Pipeworks.Proofs.Supervisor.Quiet
import Pipeworks.Proofs.Supervisor.Ownership
import Pipeworks.Proofs.Supervisor.Generations
import Pipeworks.Proofs.Topology.Completeness
import Pipeworks.Proofs.Topology.Acyclic
import Pipeworks.Proofs.Plan.Partition
import Pipeworks.Proofs.Run.Transition
import Pipeworks.Proofs.Run.Ledger
import Pipeworks.Proofs.Worker.Sequence
import Pipeworks.Proofs.Worker.Announcement
import Pipeworks.Proofs.Supervisor.Steps
import Pipeworks.Proofs.Supervisor.Records
import Pipeworks.Proofs.Supervisor.Rest
import Pipeworks.Proofs.Run.Log
import Pipeworks.Proofs.Control.Stream
import Pipeworks.Proofs.Supervisor.Isolation
import Pipeworks.Proofs.Worker.Stack
import Pipeworks.Proofs.Worker.Shift
import Pipeworks.Proofs.Worker.Fault
import Pipeworks.Proofs.Supervisor.Requests
import Pipeworks.Proofs.Supervisor.Effects
import Pipeworks.Proofs.Supervisor.Places
import Pipeworks.Proofs.Supervisor.Ticks
import Pipeworks.Proofs.Supervisor.Holdings
import Pipeworks.Proofs.Supervisor.Standing
import Pipeworks.Proofs.Supervisor.Watch
import Pipeworks.Proofs.Supervisor.Findings
import Pipeworks.Proofs.Supervisor.Unfinished
import Pipeworks.Proofs.Supervisor.Deaths
import Pipeworks.Emitter.Traffic
import Pipeworks.Proofs.Emitter.Account
import Pipeworks.Proofs.Emitter.Draining
import Pipeworks.Proofs.Worker.Blame
import Pipeworks.Proofs.Worker.Bridging
import Pipeworks.Proofs.Supervisor.FailedStarts
import Pipeworks.Proofs.Supervisor.AbortedRuns
import Pipeworks.Broker.Traffic
import Pipeworks.Proofs.Broker.Topics
import Pipeworks.Proofs.Broker.Traffic
import Pipeworks.Proofs.Supervisor.Mourning
import Pipeworks.Proofs.Supervisor.Visibility
import Pipeworks.Proofs.Supervisor.ThreadHoldings
import Pipeworks.Proofs.Supervisor.Confinement
import Pipeworks.Proofs.Supervisor.NonInterference
import Pipeworks.Proofs.Run.Notice
import Pipeworks.Proofs.Run.Closing
import Pipeworks.Proofs.Supervisor.Announcements
import Pipeworks.Proofs.Supervisor.Notices
import Pipeworks.Proofs.Validation.Circle
import Pipeworks.Proofs.Broker.Codec
import Pipeworks.Proofs.Store
import Pipeworks.Proofs.Worker.Spec
import Pipeworks.Proofs.Worker.Outcome
import Pipeworks.Proofs.Event
import Pipeworks.Run.Traffic
import Pipeworks.Proofs.Run.Order
import Pipeworks.Proofs.Subprocess.ExitVerdict
import Pipeworks.Proofs.Supervisor.ConsumerGroups
import Pipeworks.Proofs.Supervisor.SuccessfulStarts
import Pipeworks.Proofs.Worker.Connections
import Pipeworks.Proofs.Plan.Settled
import Pipeworks.Proofs.Validation.Reachability
import Pipeworks.Proofs.Validation.Connectivity
import Pipeworks.Proofs.Worker.Trail
import Pipeworks.Proofs.Config
import Pipeworks.Proofs.Run.Broadcast
import Pipeworks.Script.Deadline
import Pipeworks.Proofs.Supervisor.Clock
import Pipeworks.Proofs.Supervisor.Abandonment
import Pipeworks.Proofs.Supervisor.DroppedStarts
import Pipeworks.Proofs.Duration.Spelling
import Pipeworks.Proofs.Broker.Address
import Pipeworks.Proofs.Plan.Loop
