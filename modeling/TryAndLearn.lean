import TryAndLearn.Machine.Run
import TryAndLearn.Machine.Trace
import TryAndLearn.Machine.Tally
import TryAndLearn.Machine.Exclusion
import TryAndLearn.Machine.Ledger
import TryAndLearn.Machine.Channel
import TryAndLearn.Machine.Server
import TryAndLearn.Machine.Inevitable
import TryAndLearn.Machine.Endless
import TryAndLearn.Machine.Ownership
import TryAndLearn.Machine.Slots
import TryAndLearn.RwMutex.Basic
import TryAndLearn.RwMutex.Threads
import TryAndLearn.RwMutex.Exclusion
import TryAndLearn.RwMutex.Wakeup
import TryAndLearn.RwMutex.Preference
import TryAndLearn.RwMutex.LockObjects
import TryAndLearn.RwMutex.Counts
import TryAndLearn.RwMutex.ObjectExclusion
import TryAndLearn.RwMutex.Release
import TryAndLearn.RwMutex.MovedFrom
import TryAndLearn.RwMutex.Unmatched
import TryAndLearn.RwMutex.Progress
import TryAndLearn.RwMutex.SelfDeadlock
import TryAndLearn.RwMutex.Deadlock
import TryAndLearn.RwMutex.Starvation
import TryAndLearn.SpinLock.Basic
import TryAndLearn.SpinLock.Exclusion
import TryAndLearn.SpinLock.Progress
import TryAndLearn.SpinLock.Starvation
import TryAndLearn.SpinLock.Shared
import TryAndLearn.SpinLock.SharedRelease
import TryAndLearn.ThreadSafeQueue.Basic
import TryAndLearn.ThreadSafeQueue.Threads
import TryAndLearn.ThreadSafeQueue.Delivery
import TryAndLearn.ThreadPool.Basic
import TryAndLearn.ThreadPool.Moves
import TryAndLearn.ThreadPool.Conservation
import TryAndLearn.ThreadPool.Mutex
import TryAndLearn.ThreadPool.Sleepers
import TryAndLearn.ThreadPool.Vectors
import TryAndLearn.ThreadPool.Attached
import TryAndLearn.ThreadPool.Stop
import TryAndLearn.ThreadPool.Drain
import TryAndLearn.ThreadPool.StopWakeup
import TryAndLearn.ThreadPool.Teardown
import TryAndLearn.ThreadPool.StopTwice
import TryAndLearn.ThreadPool.Record
import TryAndLearn.ThreadPool.ResizeCall
import TryAndLearn.ThreadPool.Shrink
import TryAndLearn.ThreadPool.OneWorker
import TryAndLearn.ThreadPool.Unlock
import TryAndLearn.ThreadPool.ResizeStages
import TryAndLearn.ThreadPool.Resize
import TryAndLearn.ThreadPool.FailedGrowth
import TryAndLearn.ThreadPool.Progress
import TryAndLearn.ThreadPool.Idle
import TryAndLearn.ThreadPool.Ready
import TryAndLearn.ThreadPool.StopReturns
import TryAndLearn.ThreadPool.Quiescence
import TryAndLearn.SigSlot.Basic
import TryAndLearn.SigSlot.Emission
import TryAndLearn.Batcher.Basic
import TryAndLearn.Batcher.Partition
import TryAndLearn.Batcher.Threads
import TryAndLearn.Batcher.Reentrancy
import TryAndLearn.Batcher.Progress
import TryAndLearn.Batcher.Linearised
import TryAndLearn.CurlDownloader.Basic
import TryAndLearn.CurlDownloader.Leftovers
import TryAndLearn.CurlDownloader.NetFiles
import TryAndLearn.Any.Basic
import TryAndLearn.Any.Memory
import TryAndLearn.Any.Table
import TryAndLearn.Any.Members
import TryAndLearn.Any.Contents
import TryAndLearn.Any.Lifetime
