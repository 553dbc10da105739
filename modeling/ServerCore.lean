import ServerCore.Interleaving.System
import ServerCore.Interleaving.Progress
import ServerCore.Interleaving.Projection
import ServerCore.Interleaving.Clock
import ServerCore.Interleaving.Threads
import ServerCore.Word
import ServerCore.Region
import ServerCore.Wire.Varint
import ServerCore.Wire.Readers
import ServerCore.Wire.Fields
import ServerCore.Wire.Valid
import ServerCore.Acyclic
import ServerCore.BackWalk
import ServerCore.PriorityQueue
import ServerCore.Lock.Basic
import ServerCore.Lock.Exclusion
import ServerCore.Lock.Guard
import ServerCore.Lock.Reentrance
import ServerCore.Lock.Counters
import ServerCore.Lock.Release
import ServerCore.ThreadManager
import ServerCore.LockQueue
import ServerCore.JobQueue.Basic
import ServerCore.JobQueue.Accounting
import ServerCore.JobQueue.ClearJob
import ServerCore.JobQueue.Responsibility
import ServerCore.JobQueue.Order
import ServerCore.JobQueue.Starvation
import ServerCore.JobQueue.Drain
import ServerCore.Memory.SizeClasses
import ServerCore.Memory.Basic
import ServerCore.Memory.Ownership
import ServerCore.Memory.Capacity
import ServerCore.Memory.Shutdown
import ServerCore.Memory.Usage
import ServerCore.Memory.Table
import ServerCore.Memory.Allocators
import ServerCore.Memory.Stomp
import ServerCore.Memory.Alignment
import ServerCore.Session.RecvBuffer
import ServerCore.Session.Receive
import ServerCore.Session.Compaction
import ServerCore.Session.Wedge
import ServerCore.Session.Zombie
import ServerCore.Session.Send
import ServerCore.Session.Outstanding
import ServerCore.Session.Scatter
import ServerCore.DeadLockProfiler.Basic
import ServerCore.DeadLockProfiler.Search
import ServerCore.DeadLockProfiler.ReportedCycle
import ServerCore.DeadLockProfiler.Soundness
import ServerCore.DeadLockProfiler.Unlock
import ServerCore.DeadLockProfiler.Reentrance
import ServerCore.JobTimer.Basic
import ServerCore.JobTimer.Rounds
import ServerCore.JobTimer.Deadline
import ServerCore.JobTimer.Delivery
import ServerCore.TimedJobs.Basic
import ServerCore.TimedJobs.Parts
import ServerCore.TimedJobs.Delivery
import ServerCore.TimedJobs.Conservation
import ServerCore.Service.Basic
import ServerCore.Service.Bookkeeping
import ServerCore.NetAddress
import ServerCore.Iocp.Basic
import ServerCore.Iocp.Calls
import ServerCore.Iocp.Routing
import ServerCore.Iocp.Ownership
import ServerCore.Iocp.Failures
import ServerCore.Iocp.Connected
import ServerCore.Iocp.Rejected
import ServerCore.Iocp.Retries
import ServerCore.Iocp.Accepts
import ServerCore.Iocp.Limit
import ServerCore.SendBuffer.Basic
import ServerCore.SendBuffer.Steps
import ServerCore.SendBuffer.Places
import ServerCore.SendBuffer.Ranges
import ServerCore.SendBuffer.Closing
import ServerCore.SendBuffer.Separation
import ServerCore.SendBuffer.Contents
import ServerCore.SendBuffer.Misuse
import ServerCore.SharedSend.Basic
import ServerCore.SharedSend.References
import ServerCore.SharedSend.Holders
import ServerCore.SharedSend.Delivery
import ServerCore.SharedSend.Stall
import ServerCore.Buffer.Basic
import ServerCore.Buffer.RoundTrip
import ServerCore.Buffer.Bounds
import ServerCore.Protocol.ParseContext
import ServerCore.Protocol.Buffers
import ServerCore.Protocol.Numbers
import ServerCore.Protocol.Within
import ServerCore.Protocol.Loop
import ServerCore.Protocol.Message
import ServerCore.Protocol.Fields
import ServerCore.Protocol.Size
import ServerCore.Protocol.RoundTrip
