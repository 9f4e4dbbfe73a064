import AsyncCpp.Basic
import AsyncCpp.Lib.Machine
import AsyncCpp.Lib.Threads

/-!
# `TaskSharedState`

Model of `Detail/Tasks/TaskHelpers.h`: the state a `Task` and its copies share, and
everything threads do to it. `_lockObject` is modelled as a lock with an owner. A
critical section that only touches the fields the lock protects is one step, taken
while the lock is free. The sections another thread can interfere with (the
successful body writes `_state` without the lock) are cut at every access:
`AddContinuation` and `Wait` hold the lock over several steps.

The three kinds of task share one machine:

* a function task runs `Start` (`RunTaskFunc`) and the item it hands to its scheduler;
* a task of a `TaskCompletionSource` is completed by the public setters;
* a coroutine task is completed by its promise: a setter with `completeTask = false`,
  then `PublishResult`.
-/

namespace AsyncCpp.Tasks

open Interleaving

variable {α ε T : Type*}

/-! ## The shared state -/

/-- The data members of `TaskSharedState<TResult>` (TaskHelpers.h:434-446). `func` is the
    value `_func()` yields without running the user's function: the value `Memoize0`
    stored (Functional/F.h:40-48) or the one `SetResult` captured; `none` before that.
    For `TResult = void` the value is `()`. -/
structure TaskSharedState (α ε : Type*) where
  state : TaskState := .created
  func : Option α := none
  exceptionPtr : Option (Exn ε) := none
  preparedNextState : TaskState := .created
  continuations : List ℕ := []

namespace TaskSharedState

/-- What `Wait()` does once the task is completed (TaskHelpers.h:197-206): return, or
    rethrow `_exceptionPtr`. A null pointer of a canceled task stands for a fresh
    `OperationCanceledException`; `rethrow_exception(nullptr)` is `none`. -/
def waitOutcome (s : TaskSharedState α ε) : Except (Option (Exn ε)) Unit :=
  if s.state = .runToCompletion then .ok ()
  else if s.exceptionPtr.isNone ∧ s.state = .canceled then .error (some .operationCanceled)
  else .error s.exceptionPtr

/-- What `GetResult()` yields without running the user's function (TaskHelpers.h:103-109):
    `Wait()`, then the stored value of `_func`. -/
def resultOutcome (s : TaskSharedState α ε) : Except (Option (Exn ε)) (Option α) :=
  s.waitOutcome.map fun _ => s.func

end TaskSharedState

/-! ## The setters -/

/-- A call of one of the setters (TaskHelpers.h:236-426). An exception argument may be a
    null pointer. -/
inductive SetCall (α ε : Type*) where
  | setException (exception : Option (Exn ε)) (completeTask : Bool)
  | trySetException (exception : Option (Exn ε))
  | setCanceled (completeTask : Bool)
  | trySetCanceled
  | setResult (result : α) (completeTask : Bool)
  | trySetResult (result : α)
  | publishResult

/-- `throwIfTaskCompleted` (TaskHelpers.h:483-489). -/
def taskCompleted : Exn ε := .logicError "Task already completed."

/-- What a setter does inside its critical section: it throws, returns `false`
    (`none`), or writes the shared state; the flag says whether `notify_all` and
    `runContinuations` follow. -/
def SetCall.apply (s : TaskSharedState α ε) :
    SetCall α ε → Except (Exn ε) (Option (TaskSharedState α ε × Bool))
  | .setException none _ | .trySetException none => .error (.invalidArgument "exception")
  | .setException (some e) completeTask =>
    if s.state ≠ .created then .error taskCompleted
    else if completeTask then .ok (some ({ s with exceptionPtr := some e, state := .faulted }, true))
    else .ok (some ({ s with exceptionPtr := some e, preparedNextState := .faulted }, false))
  | .trySetException (some e) =>
    if s.state ≠ .created then .ok none
    else .ok (some ({ s with exceptionPtr := some e, state := .faulted }, true))
  | .setCanceled completeTask =>
    if s.state ≠ .created then .error taskCompleted
    else if completeTask then .ok (some ({ s with state := .canceled }, true))
    else .ok (some ({ s with preparedNextState := .canceled }, false))
  | .trySetCanceled =>
    if s.state ≠ .created then .ok none
    else .ok (some ({ s with state := .canceled }, true))
  | .setResult result completeTask =>
    if s.state ≠ .created then .error taskCompleted
    else if completeTask then
      .ok (some ({ s with func := some result, state := .runToCompletion }, true))
    else .ok (some ({ s with func := some result, preparedNextState := .runToCompletion }, false))
  | .trySetResult result =>
    if s.state ≠ .created then .ok none
    else .ok (some ({ s with func := some result, state := .runToCompletion }, true))
  | .publishResult =>
    if s.state ≠ .created then .error taskCompleted
    else .ok (some ({ s with state := s.preparedNextState }, true))

/-- The setter call `c` at once, its result dropped. -/
def TaskSharedState.exec (s : TaskSharedState α ε) (c : SetCall α ε) : TaskSharedState α ε :=
  match c.apply s with
  | .ok (some (s', _)) => s'
  | _ => s

/-- How a task ends. A canceled task may hold the `OperationCanceledException` its body
    ended with. -/
inductive Completion (α ε : Type*) where
  | value (v : α)
  | exception (e : Exn ε)
  | canceled (stored : Bool)

/-- The shared state of a task that ended with `o`. -/
def TaskSharedState.ended : Completion α ε → TaskSharedState α ε
  | .value v => { state := .runToCompletion, func := some v }
  | .exception e => { state := .faulted, exceptionPtr := some e }
  | .canceled stored =>
    { state := .canceled, exceptionPtr := if stored then some .operationCanceled else none }

/-- The three ways a task comes about. -/
inductive TaskKind where
  | function
  | completionSource
  | promise
  deriving DecidableEq, Repr

/-- The setters the owner of a task calls. A `TaskCompletionSource` passes
    `completeTask = true` (Tasks/TaskCompletionSource.h:45-90). The promise of a coroutine
    passes `false` (`TaskPromise() : _tcs{true}`, TaskCompletionSource.h:114-176): first
    `return_value`, then or instead `unhandled_exception`, which sorts out
    `OperationCanceledException`, and last the publication in `final_suspend`. -/
def TaskKind.calls (s : TaskSharedState α ε) : TaskKind → SetCall α ε → Bool
  | .completionSource, .setException _ completeTask | .completionSource, .setCanceled completeTask
  | .completionSource, .setResult _ completeTask => completeTask
  | .completionSource, .trySetException _ | .completionSource, .trySetCanceled
  | .completionSource, .trySetResult _ => true
  | .promise, .setResult _ completeTask =>
    !completeTask && s.preparedNextState == .created && s.state == .created
  | .promise, .setException (some e) completeTask =>
    !completeTask && !e.isOperationCanceled && s.preparedNextState != .faulted &&
      s.preparedNextState != .canceled && s.state == .created
  | .promise, .setCanceled completeTask =>
    !completeTask && s.preparedNextState != .faulted && s.preparedNextState != .canceled &&
      s.state == .created
  | .promise, .publishResult => s.preparedNextState != .created && s.state == .created
  | _, _ => false

/-! ## Threads -/

/-- Where a thread is inside the code of the task. -/
inductive Pc where
  | idle
  /-- `AddContinuation` holds `_lockObject` and has not read `_state`. -/
  | addLocked (k : ℕ)
  /-- `AddContinuation` holds `_lockObject` and saw a state that is not terminal. -/
  | addEnqueue (k : ℕ)
  /-- `AddContinuation` left the lock with `runContinuationNow`. -/
  | addRun (k : ℕ)
  /-- `RunTaskFunc` saw its token cancelled. -/
  | startCanceled
  /-- `RunTaskFunc` saw its token not cancelled. -/
  | startLock
  /-- `RunTaskFunc` before `_scheduler->EnqueueItem`. -/
  | startEnqueue
  /-- The scheduled item before `ThrowIfCancellationRequested`. -/
  | bodyBegin
  | bodyRunning
  /-- The scheduled item inside `DoRunTaskNow`. -/
  | bodyCall
  /-- The scheduled item before its unlocked write of `RunToCompletion`. -/
  | bodyDone
  | bodyCanceled
  | bodyFaulted
  /-- Before `_waitTaskCv.notify_all()`. -/
  | notify
  /-- Before the snapshot `runContinuations` takes. -/
  | runContinuations
  /-- `runContinuations` with the continuations it has still to invoke. -/
  | continuing (ks : List ℕ)
  /-- `Wait` holds `_lockObject` and is about to read `_state`; `result` says whether
      `GetResult` called it. -/
  | waitRead (result : Bool)
  /-- `Wait` holds `_lockObject` and saw a state that is not terminal. -/
  | waitPark (result : Bool)
  | parked (result : Bool)
  | woken (result : Bool)
  /-- `GetResult` before `_func()`. -/
  | resultCall
  deriving DecidableEq, Repr

/-- `notify_all` wakes the thread. -/
def Pc.wake : Pc → Pc
  | .parked result => .woken result
  | p => p

/-- The program: the shared state, `_lockObject`, the token, the scheduler's queue (the
    number of items of this task it holds), and the threads. The last seven fields are
    history: the number of `AddContinuation` calls (a call's number is its continuation),
    the continuations invoked with the state at that moment, the number of `Start` calls
    made, how their critical sections ended, what setter calls returned, how the runs of
    the user's function ended, and what `Wait` and `GetResult` calls yielded. -/
structure TaskSystem (α ε T : Type*) where
  task : TaskSharedState α ε := {}
  lockObject : Option T := none
  isCanceled : Bool := false
  queued : ℕ := 0
  pc : T → Pc := fun _ => .idle
  added : ℕ := 0
  invoked : List (ℕ × TaskState) := []
  starts : ℕ := 0
  startLog : List (Except (Exn ε) Unit) := []
  setLog : List (Except (Exn ε) Bool) := []
  funcLog : List (Except (Exn ε) α) := []
  waitLog : List (Except (Option (Exn ε)) (Option α)) := []

/-- Who moves, and with what input. `call t r` is the user's function, which thread `t` is
    about to run, ending with `r`. -/
inductive TaskLabel (α ε T : Type*) where
  | addContinuation (t : T)
  | start (t : T)
  | body (t : T)
  | set (t : T) (c : SetCall α ε)
  | wait (t : T) (result : Bool)
  | cancel
  | spuriousWake (t : T)
  | call (t : T) (r : Except (Exn ε) α)
  | run (t : T)

/-- `RunTaskFunc` of a task that is not in state `Created` (TaskHelpers.h:139-142). -/
def taskStarted : Exn ε := .logicError "Task already started."

namespace TaskSystem

variable [DecidableEq T]

/-- Thread `t` moves to `p`. -/
@[simp] def goto (s : TaskSystem α ε T) (t : T) (p : Pc) : TaskSystem α ε T :=
  { s with pc := Function.update s.pc t p }

/-- Thread `t` writes `_state` and moves to `p`. -/
@[simp] def setState (s : TaskSystem α ε T) (t : T) (st : TaskState) (p : Pc) : TaskSystem α ε T :=
  { s.goto t p with task := { s.task with state := st } }

/-- Thread `t` invokes continuation `k` and moves to `p`. -/
@[simp] def invoke (s : TaskSystem α ε T) (t : T) (k : ℕ) (p : Pc) : TaskSystem α ε T :=
  { s.goto t p with invoked := s.invoked ++ [(k, s.task.state)] }

/-- A `Wait` or `GetResult` call of thread `t` ends with `r`. -/
@[simp] def yield (s : TaskSystem α ε T) (t : T) (r : Except (Option (Exn ε)) (Option α)) :
    TaskSystem α ε T :=
  { s.goto t .idle with waitLog := s.waitLog ++ [r] }

/-- The user's function, called by thread `t`, ends with `r`. In the scheduled item both
    `catch` clauses store the exception before they lock (TaskHelpers.h:169-183). -/
def callStep (s : TaskSystem α ε T) (t : T) (r : Except (Exn ε) α) : Option (TaskSystem α ε T) :=
  match s.pc t, s.task.func, r with
  | .bodyCall, none, .ok v =>
    some { s.goto t .bodyDone with
      funcLog := s.funcLog ++ [r], task := { s.task with func := some v } }
  | .bodyCall, none, .error e =>
    some { s.goto t (if e.isOperationCanceled then .bodyCanceled else .bodyFaulted) with
      funcLog := s.funcLog ++ [r], task := { s.task with exceptionPtr := some e } }
  | .resultCall, none, .ok v =>
    some { s.yield t (.ok (some v)) with
      funcLog := s.funcLog ++ [r], task := { s.task with func := some v } }
  | .resultCall, none, .error e =>
    some { s.yield t (.error (some e)) with funcLog := s.funcLog ++ [r] }
  | _, _, _ => none

/-- Thread `t` goes on with what it is doing. -/
def runStep (s : TaskSystem α ε T) (t : T) : Option (TaskSystem α ε T) :=
  match s.pc t with
  | .addLocked k =>
    if s.task.state.isCompleted then some { s.goto t (.addRun k) with lockObject := none }
    else some (s.goto t (.addEnqueue k))
  | .addEnqueue k =>
    some { s.goto t .idle with
      lockObject := none, task := { s.task with continuations := s.task.continuations ++ [k] } }
  | .addRun k => some (s.invoke t k .idle)
  | .startCanceled =>
    if s.lockObject.isNone then
      some { s.setState t .canceled .notify with startLog := s.startLog ++ [.ok ()] }
    else none
  | .startLock =>
    if s.lockObject.isNone then
      if s.task.state ≠ .created then
        some { s.goto t .idle with startLog := s.startLog ++ [.error taskStarted] }
      else some { s.setState t .scheduled .startEnqueue with startLog := s.startLog ++ [.ok ()] }
    else none
  | .startEnqueue => some { s.goto t .idle with queued := s.queued + 1 }
  | .bodyBegin =>
    if s.isCanceled then
      some { s.goto t .bodyCanceled with
        task := { s.task with exceptionPtr := some .operationCanceled } }
    else some (s.goto t .bodyRunning)
  | .bodyRunning => if s.lockObject.isNone then some (s.setState t .running .bodyCall) else none
  | .bodyCall => if s.task.func.isSome then some (s.goto t .bodyDone) else none
  | .bodyDone => some (s.setState t .runToCompletion .notify)
  | .bodyCanceled => if s.lockObject.isNone then some (s.setState t .canceled .notify) else none
  | .bodyFaulted => if s.lockObject.isNone then some (s.setState t .faulted .notify) else none
  | .notify =>
    some { s with pc := Function.update (fun u => (s.pc u).wake) t .runContinuations }
  | .runContinuations =>
    if s.lockObject.isNone then
      some { s.goto t (.continuing s.task.continuations) with
        task := { s.task with continuations := [] } }
    else none
  | .continuing [] => some (s.goto t .idle)
  | .continuing (k :: ks) => some (s.invoke t k (.continuing ks))
  | .waitRead result =>
    if s.task.state.isCompleted then
      match s.task.waitOutcome with
      | .error e => some { s.yield t (.error e) with lockObject := none }
      | .ok () =>
        if result then some { s.goto t .resultCall with lockObject := none }
        else some { s.yield t (.ok none) with lockObject := none }
    else some (s.goto t (.waitPark result))
  | .waitPark result => some { s.goto t (.parked result) with lockObject := none }
  | .woken result =>
    if s.lockObject.isNone then some { s.goto t (.waitRead result) with lockObject := some t }
    else none
  | .resultCall =>
    match s.task.func with
    | some v => some (s.yield t (.ok (some v)))
    | none => none
  | .idle | .parked _ => none

/-- One step of a task of the given kind. Calls are made by idle threads. -/
def step (kind : TaskKind) (s : TaskSystem α ε T) : TaskLabel α ε T → Option (TaskSystem α ε T)
  | .addContinuation t =>
    if s.pc t = .idle ∧ s.lockObject.isNone then
      some { s.goto t (.addLocked s.added) with lockObject := some t, added := s.added + 1 }
    else none
  | .start t =>
    if kind = .function ∧ s.pc t = .idle then
      some { s.goto t (if s.isCanceled then .startCanceled else .startLock) with
        starts := s.starts + 1 }
    else none
  | .body t =>
    if s.pc t = .idle ∧ 0 < s.queued then
      some { s.goto t .bodyBegin with queued := s.queued - 1 }
    else none
  | .set t c =>
    if s.pc t = .idle ∧ s.lockObject.isNone ∧ kind.calls s.task c then
      match c.apply s.task with
      | .error e => some { s with setLog := s.setLog ++ [.error e] }
      | .ok none => some { s with setLog := s.setLog ++ [.ok false] }
      | .ok (some (task, completed)) =>
        some { s.goto t (if completed then .notify else .idle) with
          task := task, setLog := s.setLog ++ [.ok true] }
    else none
  | .wait t result =>
    if s.pc t = .idle ∧ s.lockObject.isNone then
      some { s.goto t (.waitRead result) with lockObject := some t }
    else none
  | .cancel => some { s with isCanceled := true }
  | .spuriousWake t =>
    match s.pc t with
    | .parked result => some (s.goto t (.woken result))
    | _ => none
  | .call t r => s.callStep t r
  | .run t => s.runStep t

end TaskSystem

/-- The machine of a task of the given kind, before any call. -/
def taskMachine (kind : TaskKind) (α ε T : Type*) [DecidableEq T] :
    Machine (TaskSystem α ε T) (TaskLabel α ε T) where
  init := {}
  step := TaskSystem.step kind

end AsyncCpp.Tasks
