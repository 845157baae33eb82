import HamiCore.Library.GuardedRun
import HamiCore.Library.SwapRemove
import HamiCore.Library.CString
import HamiCore.Region.Slot
import HamiCore.Region.Compaction
import HamiCore.Region.Usage
import HamiCore.Region.Registration
import HamiCore.Region.Container
import HamiCore.Allocator.OomCheck
import HamiCore.Allocator.Chunk
import HamiCore.Allocator.Ledger
import HamiCore.Allocator.Race
import HamiCore.Device.Index
import HamiCore.Device.VisibleDevices
import HamiCore.Lock.Protocol
import HamiCore.Lock.Token
import HamiCore.Lock.Exclusion
import HamiCore.Lock.Recovery
import HamiCore.Access.Field
import HamiCore.Access.Machine
import HamiCore.Access.Sequential
import HamiCore.Access.ConcurrentClear
import HamiCore.Access.Seqlock
import HamiCore.Region.Processes
import HamiCore.Device.Report
import HamiCore.Utilization.TokenPool
import HamiCore.Allocator.Async
import HamiCore.Allocator.AsyncCharge
import HamiCore.Allocator.Hooks
import HamiCore.Allocator.HookLimit
import HamiCore.Allocator.ListMutex
import HamiCore.Process.Fork
import HamiCore.Access.UsageScan
import HamiCore.Allocator.CudaMemory
import HamiCore.Allocator.OomExact
import HamiCore.Allocator.Failure
import HamiCore.Allocator.Freeable
import HamiCore.Allocator.Create
import HamiCore.Device.FreeMemory
import HamiCore.Process.PrimaryCtx
import HamiCore.Device.LimitEnv
import HamiCore.Process.ProcAlive
import HamiCore.Library.FirstOccurrence
import HamiCore.Process.HostPid
import HamiCore.Utilization.Measure
import HamiCore.Utilization.Feedback
import HamiCore.Utilization.Launch
import HamiCore.Region.Admission
import HamiCore.Device.VisibleList
import HamiCore.Library.RingBuffer
import HamiCore.Loader.DlMap
import HamiCore.Allocator.TrackedList
import HamiCore.Library.ListAccess
import HamiCore.Allocator.Tracking
import HamiCore.Allocator.HeldTracked
import HamiCore.Allocator.Pitch
import HamiCore.Loader.ProcAddress
import HamiCore.Region.Handshake
import HamiCore.Region.KernelTime
import HamiCore.Access.Counted
import HamiCore.Access.ScanReads
import HamiCore.Access.Publish
import HamiCore.Region.Attach
import HamiCore.Library.Semaphore
import HamiCore.Process.PostInit
import HamiCore.Library.Lines
import HamiCore.Region.EnvFile
import HamiCore.Utilization.Admitted
import HamiCore.Region.Running
import HamiCore.Allocator.HostMemory
import HamiCore.Loader.Libraries
import HamiCore.Utilization.Attribution
import HamiCore.Utilization.Contention
import HamiCore.Utilization.Throttle
