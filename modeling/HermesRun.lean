import HermesRun.Lib.Runs
import HermesRun.Lib.Bitfield
import HermesRun.Lib.Bytes
import HermesRun.Lib.CountedGroups
import HermesRun.Lib.History
import HermesRun.Lib.ScannedFifo
import HermesRun.Lib.BoundedScan
import HermesRun.Lib.RoundRobin
import HermesRun.Types
import HermesRun.QueueManager
import HermesRun.QueueStorage
import HermesRun.WorkEntries
import HermesRun.Placement
import HermesRun.Task
import HermesRun.TaskFlags
import HermesRun.LocalSerialize
import HermesRun.Worker.Group
import HermesRun.TaskLibs
import HermesRun.Worker.Poll
import HermesRun.Worker.Frames
import HermesRun.Worker.Lanes
import HermesRun.Worker.Ledger
import HermesRun.Worker.Admission
import HermesRun.Worker.Accounting
import HermesRun.Worker.Lifetime
import HermesRun.Worker.Blocking
import HermesRun.Worker.Tasks
import HermesRun.Remote.RemoteQueue
import HermesRun.Remote.PushTasks
import HermesRun.Remote.Dispersal
import HermesRun.Remote.Copies
import HermesRun.Admin.Cluster
import HermesRun.Admin.Agreement
import HermesRun.Admin.OwnQueues
import HermesRun.Admin.QueueIndex
import HermesRun.Admin.Coherence
import HermesRun.Admin.FailedCreation
import HermesRun.Libraries
import HermesRun.LanesKept
import HermesRun.Remote.Received
import HermesRun.Worker.Freed
import HermesRun.Remote.Moves
import HermesRun.Remote.PushesFreed
import HermesRun.Remote.Disposal
import HermesRun.Remote.Threads
import HermesRun.Remote.Joins
import HermesRun.Remote.Heap
import HermesRun.Remote.Domains
import HermesRun.Lib.Archive
import HermesRun.Remote.Serialize
import HermesRun.Remote.StartArchive
import HermesRun.Remote.Response
import HermesRun.Remote.EndArchive
import HermesRun.Remote.Outputs
import HermesRun.Remote.Contracts
import HermesRun.Remote.Messages
import HermesRun.Remote.Wire
import HermesRun.Runtime
import HermesRun.Worker.HandOff
import HermesRun.Worker.Period
import HermesRun.Proc.ProcQueue
import HermesRun.Proc.Pushes
import HermesRun.Proc.Protocol
import HermesRun.Worker.Passes
import HermesRun.Worker.QueueOrder
import HermesRun.Worker.Scans
import HermesRun.WorkerLoop
import HermesRun.Admin.Server
import HermesRun.Admin.Handlers
import HermesRun.Admin.Schedulers
import HermesRun.Admin.Policies
import HermesRun.Admin.Coroutine
