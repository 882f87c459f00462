import Libtcr.Lib.Update
import Libtcr.Lib.Transition
import Libtcr.Lib.IntrusiveLists
import Libtcr.Lib.CircularList
import Libtcr.Lib.HeadedList
import Libtcr.State
import Libtcr.EventLists
import Libtcr.Waitq
import Libtcr.Fd
import Libtcr.Scheduler
import Libtcr.System
import Libtcr.ThreadView
import Libtcr.ThreadInvariant
import Libtcr.ThreadInvariantProperties
import Libtcr.MutexInvariant
import Libtcr.ControlInvariant
import Libtcr.CallInvariant
import Libtcr.StackInvariant
import Libtcr.SignalInvariant
import Libtcr.WokenInvariant
import Libtcr.ListInvariant
import Libtcr.ListInvariantProperties
import Libtcr.SchedulerProperties
import Libtcr.WaitqProperties
import Libtcr.FdProperties
import Libtcr.SystemProperties
import Libtcr.ViewLemmas
import Libtcr.ThreadProjection
import Libtcr.FrameProjection
import Libtcr.SystemInvariant
import Libtcr.StepProperties
import Libtcr.FaultProperties
import Libtcr.FdInvariant
import Libtcr.SleepProperties
import Libtcr.MutexProperties
import Libtcr.MutexQueueProperties
import Libtcr.EventListProperties
import Libtcr.EventStackProperties
import Libtcr.FinishWaitProperties
import Libtcr.SignalProperties
import Libtcr.FdArming
import Libtcr.FdArmingInvariant
import Libtcr.FdArmingProperties
import Libtcr.DeferredFree
import Libtcr.SleepersInvariant
import Libtcr.FreeListInvariant
import Libtcr.DeferredFreeProperties
import Libtcr.ParallelFor
import Libtcr.ParallelForProperties
import Libtcr.ArrivalProperties
import Libtcr.DeadFdProperties
import Libtcr.CallSteps
import Libtcr.OwnerProperties
import Libtcr.RwLock
import Libtcr.RwLockInvariant
import Libtcr.RwLockSteps
import Libtcr.RwLockProperties
import Libtcr.Coroutines
import Libtcr.CoroutineInvariant
import Libtcr.CoroutineProperties
import Libtcr.ExitProperties
import Libtcr.ThreadRef
import Libtcr.ThreadRefProperties
import Libtcr.TimerList
import Libtcr.TimerListInvariant
import Libtcr.TimerListSteps
import Libtcr.TimerListPreservation
import Libtcr.TimerListProperties
import Libtcr.Alerts
import Libtcr.QueueProperties
import Libtcr.AlertInvariant
import Libtcr.AlertProperties
import Libtcr.Aio
import Libtcr.AioProperties
import Libtcr.MatchingProperties
import Libtcr.Workers
import Libtcr.WorkersProperties
import Libtcr.SyncWakeup
import Libtcr.SyncWakeupProperties
import Libtcr.FdMem
import Libtcr.FdMemProperties
import Libtcr.Domains
import Libtcr.DomainsProperties
import Libtcr.Pool
import Libtcr.InterruptProperties
import Libtcr.PoolProperties
import Libtcr.PoolWaitProperties
import Libtcr.PoolJoinProperties
import Libtcr.ParallelSections
import Libtcr.ParallelSectionsProperties
import Libtcr.Lib.LockMachine
import Libtcr.SpinLocks
import Libtcr.SpinLocksProperties
import Libtcr.Spinlock
import Libtcr.SpinlockProperties
import Libtcr.ReportProperties
import Libtcr.WaitFdProperties
import Libtcr.Lib.Binary64
import Libtcr.SleepTimes
import Libtcr.SleepDeadline
import Libtcr.SleepTimesInvariant
import Libtcr.SleepTimesProperties
import Libtcr.AioSlots
import Libtcr.ImmediatePasses
import Libtcr.SignalDestroy
import Libtcr.SignalCancel
import Libtcr.Lib.Alignment
import Libtcr.CoroutineStack
import Libtcr.ImmediateScan
import Libtcr.TcRun
import Libtcr.Unsubscribe
import Libtcr.UnsubscribeProperties
import Libtcr.WakeupAll
import Libtcr.ParallelForValues
import Libtcr.AioRing
import Libtcr.AioRingProperties
import Libtcr.Lib.ByteMemory
import Libtcr.Lib.X86
import Libtcr.SwapContext
import Libtcr.SwapContextProperties
import Libtcr.SwitchMachine
import Libtcr.SwitchMachineInvariant
import Libtcr.SwitchMachineSteps
import Libtcr.SwitchMachineProperties
import Libtcr.WaitEvent
import Libtcr.RwLockFairness
import Libtcr.Lib.PointerRing
import Libtcr.DomainRing
import Libtcr.SwapContextI386
import Libtcr.TimerfdEmulation
import Libtcr.SpinlockRecursion
import Libtcr.WorkerCpus
import Libtcr.SignalCount
import Libtcr.AioResults
import Libtcr.AioWakeup
import Libtcr.RwLockRefinement
import Libtcr.Quiescence
