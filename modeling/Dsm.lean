import Dsm.Lib.Run
import Dsm.Lib.Loop
import Dsm.Lib.Messages
import Dsm.Lib.Packed
import Dsm.Lib.MixedRadix
import Dsm.Lib.Versioned
import Dsm.Lib.Scan
import Dsm.Lib.WriteLog
import Dsm.Lib.Caching
import Dsm.Lib.Line
import Dsm.Machine
import Dsm.Paging.Basic
import Dsm.Paging.Moves
import Dsm.Paging.Clock
import Dsm.Paging.Operations
import Dsm.Paging.Invariant
import Dsm.Paging.Coherence
import Dsm.Paging.Transparency
import Dsm.Paging.Eviction
import Dsm.Paging.Prefetch
import Dsm.Paging.History
import Dsm.Paging.WriteFlag
import Dsm.Paging.Stretch
import Dsm.Paging.Replacement
import Dsm.Paging.Counters
import Dsm.Paging.Outcome
import Dsm.Paging.Teardown
import Dsm.Cluster.Membership
import Dsm.Cluster.Network
import Dsm.Cluster.Ownership
import Dsm.Cluster.FailureDetector
import Dsm.Cluster.Aging
import Dsm.Cluster.Restart
import Dsm.Cluster.Gossip
import Dsm.Cluster.Traffic
import Dsm.Cluster.Merging
import Dsm.Cluster.Admission
import Dsm.Server.Handler
import Dsm.Server.Forwarding
import Dsm.Server.Requests
import Dsm.Server.Store
import Dsm.Server.PeerConnections
import Dsm.Server.AcceptLoop
import Dsm.Server.HandlerExits
import Dsm.Server.Slots
import Dsm.Server.RangeOption
import Dsm.Rpc.Wire
import Dsm.Rpc.Connection
import Dsm.Rpc.InStep
import Dsm.Rpc.Framing
import Dsm.Rpc.SharedConnection
import Dsm.Rpc.Sendv
import Dsm.Rpc.Threads
import Dsm.Rpc.Overlap
import Dsm.Rpc.Atomic
import Dsm.Rpc.Returns
import Dsm.Paging.Clients
import Dsm.Paging.Trace
import Dsm.Paging.Partition
import Dsm.Paging.Wired
import Dsm.Paging.EndToEnd
import Dsm.Paging.OverCluster
import Dsm.Client.Config
import Dsm.Client.Verify
import Dsm.Client.Benchmark
import Dsm.Client.Reporting
import Dsm.Python.Array
import Dsm.Python.Allocation
import Dsm.Python.Numpy
import Dsm.Python.Process
import Dsm.Python.Program
import Dsm.Python.RoundTrip
import Dsm.Cluster.Convergence
