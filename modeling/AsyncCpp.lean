import AsyncCpp.AsyncPrimitives.SemaphoreInvariant
import AsyncCpp.Tasks.Continuations
import AsyncCpp.Tasks.TaskLifecycle
import AsyncCpp.Tasks.Unwrap
import AsyncCpp.AsyncPrimitives.AsyncMutex
import AsyncCpp.AsyncPrimitives.MutexExclusion
import AsyncCpp.AsyncPrimitives.MutexRelease
import AsyncCpp.AsyncPrimitives.AsyncCollection
import AsyncCpp.DataFlow.BlockInvariant
import AsyncCpp.DataFlow.Faults
import AsyncCpp.DataFlow.AcceptedIsRun
import AsyncCpp.Actors.ReplyActor
import AsyncCpp.DataFlow.CompletionDeadlock
import AsyncCpp.Lib.Cascade
import AsyncCpp.DataFlow.BlockShape
import AsyncCpp.DataFlow.StartComplete
import AsyncCpp.DataFlow.UserDriven
import AsyncCpp.DataFlow.BlockRun
import AsyncCpp.DataFlow.Delivery
import AsyncCpp.AsyncPrimitives.CancelActions
import AsyncCpp.Schedulers.SimpleThreadPool
import AsyncCpp.Schedulers.StrandSchedulerDecorator
import AsyncCpp.Tasks.TaskCompletionSource
import AsyncCpp.Tasks.Waiters
import AsyncCpp.Tasks.TaskCombinators
import AsyncCpp.AsyncPrimitives.CancellationRegistration
import AsyncCpp.Actors.ActorQueue
import AsyncCpp.Actors.InTurn
import AsyncCpp.Actors.SimpleActor
import AsyncCpp.Actors.ActorProgress
import AsyncCpp.AsyncPrimitives.CollectionRest
import AsyncCpp.Actors.ActorRest
import AsyncCpp.Actors.Answers
import AsyncCpp.Actors.ReplySequence
import AsyncCpp.Schedulers.StrandExceptions
import AsyncCpp.AsyncPrimitives.SemaphoreOrder
import AsyncCpp.AsyncPrimitives.ReleaseContinuations
import AsyncCpp.Threading.SynchronizationContextScope
import AsyncCpp.DataFlow.RejectedCalls
import AsyncCpp.DataFlow.FailingNodes
import AsyncCpp.DataFlow.ForkedOutput
import AsyncCpp.Schedulers.CurrentScheduler
import AsyncCpp.Tasks.FunctionTask
import AsyncCpp.Tasks.WhenAll
import AsyncCpp.Tasks.WhenAny
import AsyncCpp.Tasks.ContinuationTasks
import AsyncCpp.Schedulers.StopNotify
import AsyncCpp.Lib.CallStacks
import AsyncCpp.Schedulers.InlineStrand
import AsyncCpp.AsyncPrimitives.InlineContinuations
import AsyncCpp.AsyncPrimitives.LateCallbacks
import AsyncCpp.Tasks.ResultCalls
import AsyncCpp.Tasks.StateAndException
import AsyncCpp.Tasks.UncancelledTask
import AsyncCpp.Tasks.DroppedTask
import AsyncCpp.Tasks.TaskAwaiter
import AsyncCpp.Tasks.AwaiterRuns
import AsyncCpp.Lib.AwaitPrograms
import AsyncCpp.Tasks.Coroutines
import AsyncCpp.Tasks.CoroutinePrograms
import AsyncCpp.Actors.ActorPolicy
import AsyncCpp.Actors.PolicyRuns
import AsyncCpp.Tasks.TaskRest
import AsyncCpp.Actors.PolicyRest
import AsyncCpp.Actors.PolicyInOrder
import AsyncCpp.Lib.Simulation
import AsyncCpp.Schedulers.PoolProgress
import AsyncCpp.Schedulers.StrandOverPool
import AsyncCpp.Lib.LockedObject
import AsyncCpp.Collections.ThreadSafeCollections
import AsyncCpp.Lib.Mailbox
import AsyncCpp.Actors.PolicyMailbox
