import AsyncCpp.AsyncPrimitives.AsyncCollection

/-!
# `DataFlowBlockCommon`

Model of Detail/DataFlow/DataFlowBlockCommon.h: a network of blocks, with the threads that
call them, the processing task of every block and the detached threads that report faults.

The calls under `_stateMutex` nest along the connections: `Start` calls `Start` of the next
blocks and `completeCommon` calls their `Complete` or `SetFaulted`, each inside its own
critical section. A critical section is stored at its block, with the caller it returns to;
the stack of a thread is the chain of callers. A step enters a critical section only while
the mutex is free. The input queue of a block is the collection of
AsyncPrimitives/SimpleAsyncProducerConsumerCollection.h with the steps of its machine; its
one token is the token of `_processingCts`.

`_isAsyncNode` is left out: the processing task gets the same value or exception from a
synchronous function and from the task of an asynchronous one. The next blocks are kept
alive and connected before the first `Start()`. A second `Start()` of a block whose first
`Start()` threw creates one more processing task, which waits for `_startTask` as the first
one does: the next block that threw has stopped, so that `Start()` throws again.
-/

namespace AsyncCpp.DataFlow

open Interleaving Tasks AsyncPrimitives

/-- The connected blocks: the blocks `ConnectTo` added, in order, the accept predicates, the
    functions with the state they update and return or throw, and the initial states. -/
structure Network (Node Item σ ε : Type*) where
  outputNodes : Node → List Node
  canAcceptFunc : Node → Item → Bool
  transformFunc : Node → σ → Item → Except (Exn ε) Item × σ
  initialState : Node → σ

/-- `BlockState` (DataFlowBlockCommon.h:68-75). -/
inductive BlockState where
  | created
  | starting
  | started
  | stopping
  | stopped
  deriving DecidableEq, Repr

/-- Who calls `AcceptInputAsync`: a call of the user, by its number, or the processing task
    of a block. -/
inductive Origin (Node : Type*) where
  | user (k : ℕ)
  | block (p : Node)
  deriving DecidableEq

/-- An item in an input queue. `origin` is history. -/
structure QueueItem (Node Item : Type*) where
  origin : Origin Node
  item : Item
  deriving DecidableEq

/-- Who calls `Start`, `Complete` or `SetFaulted`. -/
inductive Caller (Node : Type*) where
  | user
  /-- The detached thread of the block itself. -/
  | faultThread
  | block (p : Node)
  deriving DecidableEq

/-- Where the thread that holds `_stateMutex` is. `calling` is the next block whose critical
    section it is in. -/
inductive Section (Node ε : Type*) where
  /-- `Start` in its loop over the next blocks. -/
  | starting (calling : Option Node)
  /-- `completeCommon` before `_processingCts.Cancel()`, inside it, and at
      `_processingTask.Wait()`. -/
  | cancel (e : Option (Exn ε))
  | canceling (e : Option (Exn ε))
  | wait (e : Option (Exn ε))
  /-- The function of `FinallyBlock`; `pending` is the exception that left the `try` part. -/
  | finally (e : Option (Exn ε)) (calling : Option Node) (pending : Option (Exn ε))
  /-- An exception leaves the critical section. -/
  | throwing (e : Exn ε)

/-- A critical section of `_stateMutex` and the caller it returns to. -/
structure Activation (Node ε : Type*) where
  caller : Caller Node
  section_ : Section Node ε

/-- Where a call of `AcceptInputAsync` is. -/
inductive AcceptPhase (ε : Type*) where
  | throwIfNotStarted
  | push
  | release
  /-- Inside `Release()`. -/
  | releasing
  | returned
  | threw (e : Exn ε)

/-- Where the processing task is (DataFlowBlockCommon.h:338-392). `rest` is `none` in the
    `while` loop, else what `TryTakeAll` returned and the last loop has still to process. -/
inductive Processing (Node Item ε : Type*) where
  /-- `_processingTask` is the completed task of the constructor. -/
  | initial
  | awaitStart
  | loop
  | taking (i : ℕ)
  | invoke (x : QueueItem Node Item) (rest : Option (List (QueueItem Node Item)))
  /-- `propagateOutput` asks the blocks `ask`; the blocks `offer` said yes. -/
  | asking (y : Item) (ask offer : List Node) (rest : Option (List (QueueItem Node Item)))
  /-- `propagateOutput` is in `AcceptInputAsync` of the first block of `offer`. -/
  | offering (y : Item) (phase : AcceptPhase ε) (offer : List Node)
      (rest : Option (List (QueueItem Node Item)))
  | drain
  /-- The `catch` clause. -/
  | failed (e : Exn ε)
  | finished (r : Except (Exn ε) Unit)

/-- The data members of `DataFlowBlockCommon` (DataFlowBlockCommon.h:76-91) and the threads
    at work in the block. `_startCallsCount` is an `int`, which `startCallsCount_bounds` bounds
    by the number of calls. `toStart` and `toComplete` are what the loops of `Start` and of the
    `FinallyBlock` have still to visit. `nodeState` is `*statePtr`. `faultThread` is the
    exception of the detached thread until it calls `SetFaulted`. `startedBy`, `completedBy`,
    `ran` and `thrown` are history: the calls that changed `_startCallsCount`, the items the
    function was called on and what it threw. -/
structure Block (Node Item σ ε : Type*) where
  state : BlockState := .created
  startCallsCount : ℤ := 0
  stateMutex : Option (Activation Node ε) := none
  startTask : TaskSharedState Unit ε := {}
  completedTask : TaskSharedState Unit ε := {}
  processingTask : Processing Node Item ε := .initial
  inputItems : AsyncCollection Unit (QueueItem Node Item) ε := {}
  toStart : List Node
  toComplete : List Node
  nodeState : σ
  faultThread : Option (Exn ε) := none
  startedBy : List (Caller Node) := []
  completedBy : List (Caller Node) := []
  ran : List (QueueItem Node Item) := []
  thrown : Option (Exn ε) := none

/-- A call of `AcceptInputAsync` the user made. -/
structure AcceptCall (Node Item ε : Type*) where
  node : Node
  item : Item
  phase : AcceptPhase ε := .throwIfNotStarted

/-- The blocks and the calls of the user, numbered in the order they were made. -/
structure Dataflow (Node Item σ ε : Type*) where
  block : Node → Block Node Item σ ε
  call : ℕ → Option (AcceptCall Node Item ε) := fun _ => none
  calls : ℕ := 0
  terminated : Bool := false

inductive DataflowLabel (Node Item ε : Type*) where
  /-- The user calls `Start`, `Complete`, `SetFaulted` or `AcceptInputAsync`. -/
  | start (n : Node)
  | complete (n : Node)
  | setFaulted (n : Node) (e : Exn ε)
  | acceptInputAsync (n : Node) (item : Item)
  /-- The user's call number `k` of `AcceptInputAsync` goes on. -/
  | runCall (k : ℕ)
  /-- The thread that holds `_stateMutex` goes on. -/
  | advance (n : Node)
  /-- The processing task goes on. -/
  | process (n : Node)
  /-- The detached thread calls `SetFaulted`. -/
  | runFaultThread (n : Node)

variable {Node Item σ ε : Type*}

/-- What `throwIfNotStarted` throws. -/
def notRunning : Exn ε := .logicError "Node does not running"

/-- What the loop body is followed by. -/
def Processing.next : Option (List (QueueItem Node Item)) → Processing Node Item ε
  | none => .loop
  | some [] => .finished (.ok ())
  | some (x :: xs) => .invoke x (some xs)

/-- What `_processingTask.Wait()` returns with. -/
def Processing.outcome : Processing Node Item ε → Option (Except (Exn ε) Unit)
  | .initial => some (.ok ())
  | .finished r => some r
  | _ => none

/-- The semaphore of the input queue is full. -/
def Block.full (b : Block Node Item σ ε) : Prop :=
  b.inputItems.asyncSemaphore.currentCount = b.inputItems.asyncSemaphore.maxCount

instance (b : Block Node Item σ ε) : Decidable b.full :=
  inferInstanceAs (Decidable (_ = _))

/-- `Release()` has returned where it has left `_waitersLock`. -/
def AcceptPhase.afterRelease (q : AsyncCollection Unit (QueueItem Node Item) ε) : AcceptPhase ε :=
  if q.lockFree then .returned else .releasing

/-- A step of `AcceptInputAsync` (DataFlowBlockCommon.h:245-271) and the phase it leads to. -/
def Block.acceptInputAsync (b : Block Node Item σ ε) (x : QueueItem Node Item) :
    AcceptPhase ε → Option (Block Node Item σ ε × AcceptPhase ε)
  | .throwIfNotStarted =>
    if b.stateMutex.isNone then
      some (b, if b.state = .started then .push else .threw notRunning)
    else none
  | .push => (b.inputItems.step (.push x)).map fun q => ({ b with inputItems := q }, .release)
  | .release =>
    (b.inputItems.step .release).map fun q =>
      ({ b with inputItems := q }, if b.full then .threw .semaphoreFull else .afterRelease q)
  | .releasing =>
    (b.inputItems.step .advance).map fun q => ({ b with inputItems := q }, .afterRelease q)
  | .returned | .threw _ => none

/-- How a call of `Start`, `Complete` or `SetFaulted` goes on: it stays in its critical
    section, returns, or throws. -/
inductive Reply (Node ε : Type*) where
  | inside
  | returned (caller : Caller Node)
  | threw (e : Exn ε) (caller : Caller Node)

/-- What the thread in a critical section does next: reply, or call `Start`, or call
    `Complete` or `SetFaulted` of a next block. -/
inductive NextCall (Node ε : Type*) where
  | reply (r : Reply Node ε)
  | start (c : Node)
  | complete (c : Node) (e : Option (Exn ε))

/-- A nested call has returned. -/
def Activation.resumed (a : Activation Node ε) : Activation Node ε :=
  match a.section_ with
  | .starting _ => { a with section_ := .starting none }
  | .finally e _ pending => { a with section_ := .finally e none pending }
  | _ => a

namespace Block

/-! ## `Start`, `Complete` and `SetFaulted` -/

/-- `Start` up to its loop (DataFlowBlockCommon.h:184-196). The next blocks are those of
    `toComplete`, from which nothing is taken before the block has stopped. -/
def start (b : Block Node Item σ ε) (caller : Caller Node) :
    Option (Block Node Item σ ε × Reply Node ε) :=
  match b.stateMutex with
  | some _ => none
  | none =>
    let b := { b with
      startCallsCount := b.startCallsCount + 1, startedBy := b.startedBy ++ [caller] }
    match b.state, b.processingTask with
    | .started, _ => some (b, .returned caller)
    | .created, .initial =>
      some ({ b with
        processingTask := .awaitStart, toStart := b.toComplete
        stateMutex := some ⟨caller, .starting none⟩ },
        .inside)
    -- a first `Start()` threw, and its processing task still waits for `_startTask`
    | .created, _ =>
      some ({ b with toStart := b.toComplete, stateMutex := some ⟨caller, .starting none⟩ },
        .inside)
    | _, _ => some (b, .threw (.logicError "Could not start node!") caller)

/-- `completeCommon` up to `_processingCts.Cancel()` (DataFlowBlockCommon.h:398-413). -/
def completeCommon (b : Block Node Item σ ε) (caller : Caller Node) (e : Option (Exn ε)) :
    Option (Block Node Item σ ε × Reply Node ε) :=
  match b.stateMutex with
  | some _ => none
  | none =>
    let b := { b with
      startCallsCount := b.startCallsCount - 1, completedBy := b.completedBy ++ [caller] }
    if 0 < b.startCallsCount ∧ e.isNone then some (b, .returned caller)
    else
      match b.state with
      | .created => some (b, .threw (.logicError "Could not stop node.") caller)
      | .stopped => some (b, .returned caller)
      | _ => some ({ b with state := .stopping, stateMutex := some ⟨caller, .cancel e⟩ }, .inside)

/-- `_processingTask.Wait()` ends with `r`; `completeCommon` completes `_completedTaskPromise`
    or leaves it, and enters the function of the `FinallyBlock`
    (DataFlowBlockCommon.h:418, 442-450). -/
def waited (b : Block Node Item σ ε) (caller : Caller Node) (e : Option (Exn ε)) :
    Except (Exn ε) Unit → Block Node Item σ ε
  | .ok () =>
    { b with
      completedTask := b.completedTask.exec
        (match e with
          | none => .trySetResult ()
          | some e => .trySetException (some e))
      state := .stopped
      stateMutex := some ⟨caller, .finally e none none⟩ }
  | .error ex =>
    { b with state := .stopped, stateMutex := some ⟨caller, .finally e none (some ex)⟩ }

/-- The thread that holds `_stateMutex` goes on. -/
def advance (b : Block Node Item σ ε) : Option (Block Node Item σ ε × NextCall Node ε) :=
  match b.stateMutex with
  | none => none
  | some ⟨caller, .starting none⟩ =>
    match b.toStart with
    | [] =>
      some ({ b with
        state := .started, startTask := b.startTask.exec (.setResult () true), stateMutex := none },
        .reply (.returned caller))
    | c :: cs =>
      some ({ b with toStart := cs, stateMutex := some ⟨caller, .starting (some c)⟩ }, .start c)
  | some ⟨caller, .cancel e⟩ =>
    (b.inputItems.step (.cancel ())).map fun q =>
      ({ b with inputItems := q, stateMutex := some ⟨caller, .canceling e⟩ }, .reply .inside)
  | some ⟨caller, .canceling e⟩ =>
    match b.inputItems.asyncSemaphore.canceling () with
    | .idle => some ({ b with stateMutex := some ⟨caller, .wait e⟩ }, .reply .inside)
    | _ =>
      (b.inputItems.step (.runCancel ())).map fun q =>
        ({ b with inputItems := q }, .reply .inside)
  | some ⟨caller, .wait e⟩ =>
    b.processingTask.outcome.map fun r => (b.waited caller e r, .reply .inside)
  | some ⟨caller, .finally e none pending⟩ =>
    match b.toComplete with
    | [] =>
      some ({ b with stateMutex := none },
        .reply (match pending with
          | none => .returned caller
          | some ex => .threw ex caller))
    | c :: cs =>
      some ({ b with toComplete := cs, stateMutex := some ⟨caller, .finally e (some c) pending⟩ },
        .complete c e)
  | some ⟨caller, .throwing ex⟩ => some ({ b with stateMutex := none }, .reply (.threw ex caller))
  | some ⟨_, .starting (some _)⟩ | some ⟨_, .finally _ (some _) _⟩ => none

/-! ## The processing task -/

/-- The function is called on `x`. -/
def invoke (N : Network Node Item σ ε) (n : Node) (b : Block Node Item σ ε)
    (x : QueueItem Node Item) (rest : Option (List (QueueItem Node Item))) :
    Block Node Item σ ε :=
  match N.transformFunc n b.nodeState x.item with
  | (.ok y, st) =>
    { b with
      ran := b.ran ++ [x], nodeState := st, processingTask := .asking y (N.outputNodes n) [] rest }
  | (.error e, st) =>
    { b with ran := b.ran ++ [x], nodeState := st, thrown := some e, processingTask := .failed e }

/-- The processing task of `n` goes on, up to the steps in which it touches another block
    (`runProcessingTask` and the ends of the loops of `propagateOutput`). -/
def process (N : Network Node Item σ ε) (n : Node) (b : Block Node Item σ ε) :
    Option (Block Node Item σ ε) :=
  match b.processingTask with
  | .awaitStart =>
    if b.startTask.state.isCompleted then some { b with processingTask := .loop } else none
  | .loop =>
    if (b.inputItems.asyncSemaphore.token ()).isCanceled then some { b with processingTask := .drain }
    else
      (b.inputItems.step (.takeAsync (some ()))).map fun q =>
        { b with inputItems := q, processingTask := .taking b.inputItems.asyncSemaphore.issued }
  | .taking i =>
    -- the call of `WaitAsync` has not returned
    if i ∈ b.inputItems.asyncSemaphore.critical.calling then
      (b.inputItems.step .advance).map fun q => { b with inputItems := q }
    else
      match b.inputItems.outcome i with
      | none => (b.inputItems.step (.resume i)).map fun q => { b with inputItems := q }
      | some (.ok x) => some { b with processingTask := .invoke x none }
      | some (.error e) =>
        some { b with processingTask := if e.isOperationCanceled then .loop else .failed e }
  | .invoke x rest => some (invoke N n b x rest)
  | .asking y [] offer rest =>
    some { b with processingTask := .offering y .throwIfNotStarted offer rest }
  | .offering _ _ [] rest => some { b with processingTask := .next rest }
  | .drain =>
    (b.inputItems.step .tryTakeAll).map fun q =>
      { b with inputItems := q, processingTask := .next (some b.inputItems.innerCollection) }
  | .failed e =>
    some { b with
      faultThread := if e.isStdException then some e else b.faultThread
      processingTask := .finished (.error e) }
  | .initial | .finished _ | .asking _ (_ :: _) _ _ | .offering _ _ (_ :: _) _ => none

end Block

/-- What `propagateOutput` does after a step of `AcceptInputAsync` that led to `phase`. An
    exception ends it: it stays in the task nobody looks at. -/
def offered (y : Item) (c : Node) (offer : List Node) (rest : Option (List (QueueItem Node Item))) :
    AcceptPhase ε → Processing Node Item ε
  | .returned => .offering y .throwIfNotStarted offer rest
  | .threw _ => .next rest
  | phase => .offering y phase (c :: offer) rest

/-! ## The whole network -/

namespace Dataflow

variable [DecidableEq Node]

def set (s : Dataflow Node Item σ ε) (n : Node) (b : Block Node Item σ ε) :
    Dataflow Node Item σ ε :=
  { s with block := Function.update s.block n b }

/-- A call goes on with `r`. An exception that leaves the function of a `FinallyBlock`, which
    runs in a destructor, or that of a thread terminates the program. -/
def reply (s : Dataflow Node Item σ ε) : Reply Node ε → Dataflow Node Item σ ε
  | .inside | .returned .user | .returned .faultThread | .threw _ .user => s
  | .returned (.block p) =>
    s.set p { s.block p with stateMutex := (s.block p).stateMutex.map Activation.resumed }
  | .threw _ .faultThread => { s with terminated := true }
  | .threw e (.block p) =>
    match (s.block p).stateMutex with
    | some ⟨caller, .starting _⟩ =>
      s.set p { s.block p with stateMutex := some ⟨caller, .throwing e⟩ }
    | _ => { s with terminated := true }

def start (s : Dataflow Node Item σ ε) (n : Node) (caller : Caller Node) :
    Option (Dataflow Node Item σ ε) :=
  ((s.block n).start caller).map fun (b, r) => (s.set n b).reply r

def completeCommon (s : Dataflow Node Item σ ε) (n : Node) (caller : Caller Node)
    (e : Option (Exn ε)) : Option (Dataflow Node Item σ ε) :=
  ((s.block n).completeCommon caller e).map fun (b, r) => (s.set n b).reply r

/-- The thread that holds `_stateMutex` of `n` goes on. -/
def advance (s : Dataflow Node Item σ ε) (n : Node) : Option (Dataflow Node Item σ ε) :=
  match (s.block n).advance with
  | none => none
  | some (b, .reply r) => some ((s.set n b).reply r)
  | some (b, .start c) => (s.set n b).start c (.block n)
  | some (b, .complete c e) => (s.set n b).completeCommon c (.block n) e

/-- `CanAcceptInput` (DataFlowBlockCommon.h:230-242), the mutex being free. -/
def canAcceptInput (N : Network Node Item σ ε) (s : Dataflow Node Item σ ε) (c : Node) (y : Item) :
    Bool :=
  (s.block c).state = .started ∧ N.canAcceptFunc c y

/-- The processing task of `n` goes on (`runProcessingTask` and `propagateOutput`,
    DataFlowBlockCommon.h:296-392). -/
def process (N : Network Node Item σ ε) (s : Dataflow Node Item σ ε) (n : Node) :
    Option (Dataflow Node Item σ ε) :=
  match (s.block n).processingTask with
  | .asking y (c :: ask) offer rest =>
    if (s.block c).stateMutex.isNone then
      some (s.set n { s.block n with
        processingTask := .asking y ask (if s.canAcceptInput N c y then offer ++ [c] else offer) rest })
    else none
  | .offering y phase (c :: offer) rest =>
    ((s.block c).acceptInputAsync ⟨.block n, y⟩ phase).map fun (bc, phase') =>
      let s := s.set c bc
      s.set n { s.block n with processingTask := offered y c offer rest phase' }
  | _ => ((s.block n).process N n).map fun b => s.set n b

/-- Call `k` of `AcceptInputAsync` goes on. -/
def runCall (s : Dataflow Node Item σ ε) (k : ℕ) : Option (Dataflow Node Item σ ε) :=
  match s.call k with
  | none => none
  | some c =>
    ((s.block c.node).acceptInputAsync ⟨.user k, c.item⟩ c.phase).map fun (b, phase) =>
      { s.set c.node b with call := Function.update s.call k (some { c with phase := phase }) }

def step (N : Network Node Item σ ε) (s : Dataflow Node Item σ ε)
    (a : DataflowLabel Node Item ε) : Option (Dataflow Node Item σ ε) :=
  if s.terminated then none
  else
    match a with
    | .start n => s.start n .user
    | .complete n => s.completeCommon n .user none
    | .setFaulted n e => s.completeCommon n .user (some e)
    | .acceptInputAsync n item =>
      some { s with
        call := Function.update s.call s.calls (some { node := n, item := item })
        calls := s.calls + 1 }
    | .runCall k => s.runCall k
    | .advance n => s.advance n
    | .process n => s.process N n
    | .runFaultThread n =>
      match (s.block n).faultThread with
      | none => none
      | some e =>
        (s.set n { s.block n with faultThread := none }).completeCommon n .faultThread (some e)

end Dataflow

/-- The network as it is constructed and connected. -/
def dataflowMachine [DecidableEq Node] (N : Network Node Item σ ε) :
    Machine (Dataflow Node Item σ ε) (DataflowLabel Node Item ε) where
  init :=
    { block := fun n =>
        { toStart := N.outputNodes n, toComplete := N.outputNodes n, nodeState := N.initialState n } }
  step := Dataflow.step N

end AsyncCpp.DataFlow
