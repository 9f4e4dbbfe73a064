import AsyncCpp.AsyncPrimitives.CtsSharedState
import AsyncCpp.Lib.Machine
import AsyncCpp.Lib.Threads
import AsyncCpp.Tasks.TaskSharedState

/-!
# `AsyncSemaphore`

Model of AsyncPrimitives/AsyncSemaphore.cpp. One thread at a time is in a critical
section of `_waitersLock`; the sections of `WaitAsync` and `Release` are cut wherever
they touch something a cancellation can touch as well: the wait task of a waiter and
the shared state of its token. Cancellations run at any moment, each in the steps of
`NotifyCanceled`: the exchange of `_isCanceled`, the move of the actions, and the
actions one by one.

Wait tasks are numbered in the order of the `WaitAsync` calls. The callback
`WaitAsync` registers completes the wait task with an `OperationCanceledException`, so
the number of the wait task stands for it.
-/

namespace AsyncCpp.AsyncPrimitives

open Interleaving Tasks

/-- Where the thread that holds `_waitersLock` is. -/
inductive Critical (K : Type*) where
  | free
  /-- `WaitAsync` before `cancellationToken.Register`. -/
  | registering (i : ℕ) (k : K)
  /-- `Register` holds `_cancelActionsMutex` and saw the token not cancelled. -/
  | registerChecked (i : ℕ) (k : K)
  /-- `WaitAsync` before `_waiters.emplace_back`. -/
  | emplacing (i : ℕ) (r : Option (CancellationRegistration K))
  /-- `Release` has popped a waiter and is before `promise.TrySetResult()`. -/
  | popped (i : ℕ) (r : Option (CancellationRegistration K))
  /-- `Release` before `cancellationRegistration->Dispose()`. -/
  | disposing (r : CancellationRegistration K) (waiterReleased : Bool)

/-- Where the `Cancel` call that cancelled a token is. -/
inductive CancelPhase where
  | idle
  /-- `NotifyCanceled` has set `_isCanceled`. -/
  | exchanged
  /-- `RunCancelActions` with the actions it has still to run. -/
  | running (is : List ℕ)

/-- The semaphore (AsyncSemaphore.h:41-45) and its environment: the wait tasks, the tokens
    `K` and the cancellations in progress. `issued` is the number of `WaitAsync` calls;
    `released` and `rejected` count the `Release` calls that returned and that threw. -/
structure AsyncSemaphore (K ε : Type*) where
  maxCount : ℤ
  initialCount : ℤ
  currentCount : ℤ
  waiters : List (ℕ × Option (CancellationRegistration K)) := []
  critical : Critical K := .free
  issued : ℕ := 0
  waitTask : ℕ → TaskSharedState Unit ε := fun _ => {}
  token : K → CtsSharedState ℕ := fun _ => {}
  canceling : K → CancelPhase := fun _ => .idle
  released : ℕ := 0
  rejected : ℕ := 0

inductive SemaphoreLabel (K : Type*) where
  /-- `WaitAsync` is called; `none` stands for `CancellationToken::None()`. -/
  | waitAsync (k : Option K)
  | release
  /-- The holder of `_waitersLock` goes on. -/
  | advance
  /-- `Cancel` is called. -/
  | cancel (k : K)
  /-- The `Cancel` call that cancelled the token goes on. -/
  | runCancel (k : K)
  | dispose

/-- The shared state of a task completed with a result. -/
def granted {ε : Type*} : TaskSharedState Unit ε := .ended (.value ())

/-- The shared state of a wait task whose token was cancelled. -/
def canceledWait {ε : Type*} : TaskSharedState Unit ε := .ended (.exception .operationCanceled)

namespace AsyncSemaphore

variable {K ε : Type*}

/-- The constructor (AsyncSemaphore.cpp:17-32). -/
def construct (maxCount initialCount : ℤ) : Except (Exn ε) (AsyncSemaphore K ε) :=
  if maxCount < initialCount ∨ maxCount < 0 then .error (.invalidArgument "_maxCount")
  else if initialCount < 0 then .error (.invalidArgument "_initialCount")
  else .ok { maxCount, initialCount, currentCount := initialCount }

/-- `promise.TrySetResult()` of waiter `i`. -/
@[simp] def trySetResult (s : AsyncSemaphore K ε) (i : ℕ) : AsyncSemaphore K ε :=
  { s with waitTask := Function.update s.waitTask i ((s.waitTask i).exec (.trySetResult ())) }

/-- `promise.TrySetException` of waiter `i` with an `OperationCanceledException`. -/
@[simp] def trySetCanceled (s : AsyncSemaphore K ε) (i : ℕ) : AsyncSemaphore K ε :=
  { s with
    waitTask := Function.update s.waitTask i
      ((s.waitTask i).exec (.trySetException (some .operationCanceled))) }

section

variable [DecidableEq K]

@[simp] def setToken (s : AsyncSemaphore K ε) (k : K) (t : CtsSharedState ℕ) : AsyncSemaphore K ε :=
  { s with token := Function.update s.token k t }

/-- `CancellationRegistration::Dispose`. -/
def disposeRegistration (s : AsyncSemaphore K ε) : CancellationRegistration K → AsyncSemaphore K ε
  | .empty => s
  | .remove k id => s.setToken k ((s.token k).removeCancellation id)

end

/-- The head of the loop of `Release`: the front waiter is moved out and popped. -/
def popFront (s : AsyncSemaphore K ε) : AsyncSemaphore K ε :=
  match s.waiters with
  | [] => s
  | (i, r) :: ws => { s with waiters := ws, critical := .popped i r }

/-- The end of an iteration of the loop of `Release`, and the code after it
    (AsyncSemaphore.cpp:110-115). -/
def loopTest (s : AsyncSemaphore K ε) (waiterReleased : Bool) : AsyncSemaphore K ε :=
  if waiterReleased then { s with critical := .free, released := s.released + 1 }
  else if s.waiters.isEmpty then
    { s with critical := .free, currentCount := s.currentCount + 1, released := s.released + 1 }
  else s.popFront

/-- `WaitAsync` enters its critical section. -/
def waitAsync (s : AsyncSemaphore K ε) (k : Option K) : AsyncSemaphore K ε :=
  if 0 < s.currentCount then
    { s with
      currentCount := s.currentCount - 1, issued := s.issued + 1
      waitTask := Function.update s.waitTask s.issued granted }
  else
    match k with
    | none => { s with issued := s.issued + 1, critical := .emplacing s.issued none }
    | some k => { s with issued := s.issued + 1, critical := .registering s.issued k }

/-- `Release` enters its critical section. -/
def release (s : AsyncSemaphore K ε) : AsyncSemaphore K ε :=
  if s.currentCount = s.maxCount then { s with rejected := s.rejected + 1 }
  else if s.waiters.isEmpty then
    { s with currentCount := s.currentCount + 1, released := s.released + 1 }
  else s.popFront

variable [DecidableEq K]

/-- The holder of `_waitersLock` goes on. -/
def advance (s : AsyncSemaphore K ε) : Option (AsyncSemaphore K ε) :=
  match s.critical with
  | .free => none
  | .registering i k =>
    if (s.token k).isCanceled then
      some { s.trySetCanceled i with critical := .emplacing i (some .empty) }
    else some { s with critical := .registerChecked i k }
  | .registerChecked i k =>
    let (id, t) := (s.token k).pushAction i
    some { s.setToken k t with critical := .emplacing i (some (.remove k id)) }
  | .emplacing i r => some { s with waiters := s.waiters ++ [(i, r)], critical := .free }
  | .popped i r =>
    let waiterReleased := (s.waitTask i).state = .created
    match r with
    | none => some ((s.trySetResult i).loopTest waiterReleased)
    | some r => some { s.trySetResult i with critical := .disposing r waiterReleased }
  | .disposing r waiterReleased => some ((s.disposeRegistration r).loopTest waiterReleased)

/-- `_cancelActionsMutex` of token `k` is free. -/
def cancelActionsMutexFree (s : AsyncSemaphore K ε) (k : K) : Bool :=
  match s.critical with
  | .registerChecked _ k' => k' ≠ k
  | _ => true

/-- The `Cancel` call that cancelled token `k` goes on. -/
def runCancel (s : AsyncSemaphore K ε) (k : K) : Option (AsyncSemaphore K ε) :=
  match s.canceling k with
  | .idle => none
  | .exchanged =>
    if s.cancelActionsMutexFree k then
      let (is, t) := (s.token k).moveActions
      some { s.setToken k t with canceling := Function.update s.canceling k (.running is) }
    else none
  | .running [] => some { s with canceling := Function.update s.canceling k .idle }
  | .running (i :: is) =>
    some { s.trySetCanceled i with canceling := Function.update s.canceling k (.running is) }

/-- One iteration of the loop of `Dispose` (AsyncSemaphore.cpp:123-135). -/
def disposeWaiter (s : AsyncSemaphore K ε) (w : ℕ × Option (CancellationRegistration K)) :
    AsyncSemaphore K ε :=
  match w.2 with
  | none => s.trySetCanceled w.1
  | some r => (s.trySetCanceled w.1).disposeRegistration r

/-- `Dispose` (AsyncSemaphore.cpp:118-142), which takes no lock. -/
def dispose (s : AsyncSemaphore K ε) : AsyncSemaphore K ε :=
  { s.waiters.foldl disposeWaiter s with waiters := [] }

/-- One step. `Dispose` is one step because its caller has to see to it that nothing
    overlaps it. -/
def step (s : AsyncSemaphore K ε) : SemaphoreLabel K → Option (AsyncSemaphore K ε)
  | .waitAsync k =>
    match s.critical with
    | .free => some (s.waitAsync k)
    | _ => none
  | .release =>
    match s.critical with
    | .free => some s.release
    | _ => none
  | .advance => s.advance
  | .cancel k =>
    if (s.token k).isCanceled then some s
    else
      some { s.setToken k { s.token k with isCanceled := true } with
        canceling := Function.update s.canceling k .exchanged }
  | .runCancel k => s.runCancel k
  | .dispose =>
    match s.critical with
    | .free => some s.dispose
    | _ => none

end AsyncSemaphore

/-- The machine of a semaphore that starts in state `s`. -/
def semaphoreMachine {K ε : Type*} [DecidableEq K] (s : AsyncSemaphore K ε) :
    Machine (AsyncSemaphore K ε) (SemaphoreLabel K) where
  init := s
  step := AsyncSemaphore.step

end AsyncCpp.AsyncPrimitives
