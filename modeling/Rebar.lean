import Rebar.Lib.HashMap
import Rebar.Lib.Iter
import Rebar.Lib.Machine
import Rebar.Lib.ObservedRemove
import Rebar.Lib.Saturating
import Rebar.Lib.Calls
import Rebar.Lib.Links
import Rebar.Lib.Bytes
import Rebar.Lib.Msgpack
import Rebar.Lib.Channel
import Rebar.Lib.Mirror
import Rebar.Lib.Log
import Rebar.Lib.Vec
import Rebar.Process.Types
import Rebar.Process.Names
import Rebar.Process.Registration
import Rebar.Process.Monitors
import Rebar.Process.Downs
import Rebar.Process.Mailbox
import Rebar.Process.Demonitor
import Rebar.Process.Serial
import Rebar.Process.Failures
import Rebar.Registry.OrSet
import Rebar.Registry.Spec
import Rebar.Registry.Converge
import Rebar.Registry.Lookup
import Rebar.Registry.Integrity
import Rebar.Registry.Conflicts
import Rebar.Registry.Sync
import Rebar.Swim.Gossip
import Rebar.Swim.Member
import Rebar.Swim.Refute
import Rebar.Swim.Detector
import Rebar.Swim.Service
import Rebar.Swim.ServiceSpec
import Rebar.Swim.Cluster
import Rebar.Swim.Calm
import Rebar.Swim.Relay
import Rebar.Swim.Merge
import Rebar.Swim.Events
import Rebar.Swim.Entries
import Rebar.Swim.Identity
import Rebar.Swim.Watch
import Rebar.Swim.Suspicion
import Rebar.Swim.Timers
import Rebar.Swim.Forward
import Rebar.Swim.Probe
import Rebar.Swim.Spread
import Rebar.Swim.Queue
import Rebar.Swim.Rejoin
import Rebar.Swim.Misses
import Rebar.GenStage.Dispatcher
import Rebar.GenStage.Engine
import Rebar.GenStage.Turns
import Rebar.GenStage.System
import Rebar.GenStage.Single
import Rebar.GenStage.Broadcast
import Rebar.GenStage.Pipeline
import Rebar.GenStage.Account
import Rebar.GenStage.Batches
import Rebar.GenStage.Ledger
import Rebar.GenStage.Cancel
import Rebar.GenStage.Teardown
import Rebar.GenStage.Recorded
import Rebar.GenStage.Demand
import Rebar.GenStatem.Engine
import Rebar.GenStatem.History
import Rebar.GenStatem.Events
import Rebar.GenStatem.Messages
import Rebar.GenStatem.Postpone
import Rebar.GenStatem.Enter
import Rebar.GenStatem.Timeouts
import Rebar.GenStatem.Casts
import Rebar.GenStatem.Inserted
import Rebar.GenServer.Engine
import Rebar.GenServer.History
import Rebar.GenServer.Casts
import Rebar.GenServer.Suspend
import Rebar.GenServer.Continues
import Rebar.Supervisor.Engine
import Rebar.Supervisor.Incarnation
import Rebar.Supervisor.Limiter
import Rebar.Supervisor.Orders
import Rebar.Supervisor.Phases
import Rebar.Supervisor.Dynamic
import Rebar.Supervisor.Roster
import Rebar.Supervisor.Orphans
import Rebar.Supervisor.Marks
import Rebar.Supervisor.Terminated
import Rebar.Supervisor.Staff
import Rebar.Supervisor.Overlap
import Rebar.Supervisor.Belief
import Rebar.Supervisor.Owners
import Rebar.Supervisor.Finished
import Rebar.Supervisor.Reference
import Rebar.Partition.Engine
import Rebar.Application.Manager
import Rebar.Application.Dependencies
import Rebar.Application.Sorted
import Rebar.Application.Ensured
import Rebar.Application.Shutdown
import Rebar.Coordinator.Engine
import Rebar.Coordinator.History
import Rebar.Coordinator.InFlight
import Rebar.Coordinator.Replies
import Rebar.Coordinator.Averages
import Rebar.Connection.Manager
import Rebar.Connection.Addresses
import Rebar.Connection.Leaks
import Rebar.Connection.Backoff
import Rebar.Protocol.Frame
import Rebar.Protocol.Prefix
import Rebar.Transport.Connection
import Rebar.Router.Deliver
import Rebar.Pg.Scope
