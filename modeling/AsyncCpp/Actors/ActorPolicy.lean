import AsyncCpp.Actors.Answers
import AsyncCpp.Tasks.UncancelledTask
import AsyncCpp.Tasks.TaskCombinators

/-!
# `ActorPolicy`

Model of Actors/ActorPolicy.h. The queue is an `ActionBlock` of function objects;
`ScheduleFunction` is a coroutine that awaits `AcceptInputAsync` of the queue and then the task
of a `TaskCompletionSource` that the function object completes. The constructor makes a
continuation task of the `Completion()` of the queue, which calls `OnCompleted()`, and starts
the queue. `Complete()` asks `CanCompleteNow()`, calls `Complete()` of the queue and waits for
the continuation task.

The queue is the network of Actors/Answers.lean with the steps of DataFlow/HandlerCalls.lean,
the continuation task is a function task with the steps of Tasks/TaskSharedState.lean.
`_completedTaskPromise` of the queue is completed under `_stateMutex`; its one continuation
calls `Start()` of the continuation task there, before the thread goes on. Nobody else has the
queue, and nobody calls `Start()` of the task that `Completion()` returns. Coroutines are
numbered like the calls of `AcceptInputAsync` they make, and so are their completion sources.

What a function or `OnCompleted()` calls on its actor is a call like any other: the run then
comes to nothing until the call has returned.

Results:
* `answering_actorQueue`: the function objects answer as the functions given to
  `ScheduleFunction`, one after the other on the members of the actor.
* `PolicySystem.step_cases`: what a step can be.
-/

namespace AsyncCpp.Actors

open Interleaving Tasks DataFlow

/-! ## The functions -/

/-- A function given to `ScheduleFunction`. It works on the members of the actor: what it
    returns or throws, and the members after that. -/
inductive ScheduledFunction (Result S ε : Type) where
  | value (func : S → Except (Exn ε) Result × S)
  | void (func : S → Except (Exn ε) Unit × S)

namespace ScheduledFunction

variable {Result S ε : Type}

/-- `func()`. The result of a function that returns nothing is `none`. -/
def call : ScheduledFunction Result S ε → S → Except (Exn ε) (Option Result) × S
  | .value func, members => ((func members).1.map some, (func members).2)
  | .void func, members => ((func members).1.map fun _ => none, (func members).2)

/-- The function object in the queue (ActorPolicy.h:91-107): the `try` part, and the `catch`
    part for what the function or `SetResult` threw. -/
def message (func : ScheduledFunction Result S ε) (tcs : ℕ)
    (st : ReplyState (Option Result) S ε) :
    Except (Exn ε) Unit × ReplyState (Option Result) S ε :=
  match func.call st.state with
  | (.error e, members) => { st with state := members }.setReply tcs (.setException (some e) true)
  | (.ok retValue, members) =>
    match { st with state := members }.setReply tcs (.setResult retValue true) with
    | (.ok (), st') => (.ok (), st')
    | (.error e, st') => st'.setReply tcs (.setException (some e) true)

/-- How the function ends, and the members after that. -/
def answer (func : ScheduledFunction Result S ε) (members : S) :
    Completion (Option Result) ε × S :=
  match func.call members with
  | (.ok retValue, members') => (.value retValue, members')
  | (.error e, members') => (.exception e, members')

/-- The function object, where the task of its completion source is pending. -/
theorem message_pending (func : ScheduledFunction Result S ε) {tcs : ℕ}
    {st : ReplyState (Option Result) S ε} (h : st.reply tcs = {}) :
    func.message tcs st = (.ok (),
      { state := (func.answer st.state).2
        reply := Function.update st.reply tcs (.ended (func.answer st.state).1) }) := by
  unfold message answer
  rcases func.call st.state with ⟨e | retValue, members⟩ <;>
    simp [ReplyState.setReply, SetCall.apply, TaskSharedState.exec, h, TaskSharedState.ended]

end ScheduledFunction

namespace ActorPolicy

variable {Result S ε T : Type}

/-- `_actorQueue`, with the members the actor is constructed with. The block has no next
    blocks, so what stands for its `NoOutput` goes nowhere. -/
def actorQueue (members : S) :
    Network Unit (ScheduledFunction Result S ε × ℕ) (ReplyState (Option Result) S ε) ε where
  outputNodes _ := []
  canAcceptFunc _ _ := true
  transformFunc _ st item :=
    ((item.1.message item.2 st).1.map fun _ => item, (item.1.message item.2 st).2)
  initialState _ := { state := members }

theorem answering_actorQueue (members : S) :
    Answering (actorQueue members : Network Unit (ScheduledFunction Result S ε × ℕ) _ ε)
      ScheduledFunction.answer members where
  leaf := rfl
  initialState := rfl
  transformFunc st item h := by simp [actorQueue, item.1.message_pending h, Except.map]

/-! ## The coroutines of `ScheduleFunction` -/

/-- Where the coroutine of a call of `ScheduleFunction` is (ActorPolicy.h:81-110). -/
inductive SchedulePc (Result ε : Type) where
  /-- In `AcceptInputAsync`, or at its `co_await`. -/
  | accepting
  /-- At `co_await tcs.GetTask()`. -/
  | awaiting
  /-- Its body has ended with `r`. -/
  | finalSuspend (r : Except (Exn ε) (Option Result))
  | ended (r : Except (Exn ε) (Option Result))

namespace SchedulePc

/-- The shared state of the task that `ScheduleFunction` returns. -/
def shared : SchedulePc Result ε → TaskSharedState (Option Result) ε
  | .accepting | .awaiting => {}
  | .finalSuspend r => promise r
  | .ended r => (promise r).exec .publishResult

/-- The coroutine goes on. `AcceptInputAsync` throws, or returns a completed task;
    `await_resume` of the task of `tcs` calls `Result()`. -/
def step {Item : Type} (call : Option (AcceptCall Unit Item ε))
    (tcs : TaskSharedState (Option Result) ε) : SchedulePc Result ε → Option (SchedulePc Result ε)
  | .accepting =>
    match call with
    | some ⟨_, _, .returned⟩ => some .awaiting
    | some ⟨_, _, .threw e⟩ => some (.finalSuspend (.error e))
    | _ => none
  | .awaiting =>
    if tcs.state.isCompleted then
      match tcs.resultOutcome with
      | .ok (some v) => some (.finalSuspend (.ok v))
      | .error (some e) => some (.finalSuspend (.error e))
      | _ => none
    else none
  | .finalSuspend r => some (.ended r)
  | .ended _ => none

end SchedulePc

/-! ## The actor -/

/-- Where a call of `Complete` is (ActorPolicy.h:47-65). -/
inductive CompletePc where
  | idle
  /-- Before `_actorQueue->Complete()`, and in its critical section. -/
  | queueComplete
  | completing
  /-- Before `_completionTask.Wait()`, and in it. -/
  | wait
  | waiting
  /-- The `catch` clause, for what `_actorQueue->Complete()` threw. -/
  | caught
  deriving DecidableEq

/-- What a call of `Complete` does next where the queue replies `r`. -/
def CompletePc.reply : Reply Unit ε → CompletePc
  | .inside => .completing
  | .returned _ => .wait
  | .threw _ _ => .caught

/-- The call of `Complete` that is in the critical section of the queue goes on with it. -/
def CompletePc.advance (next : NextCall Unit ε) : CompletePc → CompletePc
  | .completing =>
    match next with
    | .reply r => .reply r
    | _ => .completing
  | pc => pc

/-- The actor and the threads that call it. `T` names the calls of threads. Of
    `_completionTask`, `none` names the `Start()` call of the continuation. `returned` is
    history: what calls of `Complete` returned. -/
structure PolicySystem (Result S ε T : Type) where
  actorQueue :
    HandlerSystem Unit (ScheduledFunction Result S ε × ℕ) (ReplyState (Option Result) S ε) ε
  coroutine : ℕ → SchedulePc Result ε := fun _ => .accepting
  completionTask : TaskSystem Unit ε (Option T) := {}
  complete : T → CompletePc := fun _ => .idle
  returned : List (T × Bool) := []

inductive PolicyLabel (Result S ε T : Type) where
  /-- The constructor calls `_actorQueue->Start()`. -/
  | start
  | scheduleFunction (func : ScheduledFunction Result S ε)
  /-- Coroutine `k` goes on in `AcceptInputAsync`, and outside of it. -/
  | accept (k : ℕ)
  | coroutine (k : ℕ)
  /-- The processing task of the queue calls a function object, or goes on. -/
  | call
  | process
  /-- The detached thread of the queue calls `SetFaulted`. -/
  | runFaultThread
  /-- The thread that holds `_stateMutex` of the queue goes on, and goes on in `Start()` of the
      continuation task. -/
  | advance
  | starting
  /-- Thread `t` calls `Complete()`, and `CanCompleteNow()` answers. -/
  | complete (t : T) (canCompleteNow : Bool)
  | queueComplete (t : T)
  | wait (t : T)
  | completeReturns (t : T)
  /-- A step of `_completionTask`. -/
  | completion (l : TaskLabel Unit ε T)

namespace PolicySystem

variable [DecidableEq T]

/-- The block of `_actorQueue`. -/
def block (s : PolicySystem Result S ε T) :
    Block Unit (ScheduledFunction Result S ε × ℕ) (ReplyState (Option Result) S ε) ε :=
  s.actorQueue.dataflow.block ()

/-- The task that call `k` of `ScheduleFunction` returns. -/
def task (s : PolicySystem Result S ε T) (k : ℕ) : TaskSharedState (Option Result) ε :=
  (s.coroutine k).shared

/-- The queue takes step `a`. -/
def queueStep (members : S) (s : PolicySystem Result S ε T)
    (a : HandlerLabel Unit (ScheduledFunction Result S ε × ℕ) ε) :
    Option (PolicySystem Result S ε T) :=
  (HandlerSystem.step (ActorPolicy.actorQueue members) s.actorQueue a).map fun q =>
    { s with actorQueue := q }

/-- Thread `t` goes to `pc`. -/
def goto (s : PolicySystem Result S ε T) (t : T) (pc : CompletePc) : PolicySystem Result S ε T :=
  { s with complete := Function.update s.complete t pc }

/-- A call of `Complete` returns `r`. -/
def returns (s : PolicySystem Result S ε T) (t : T) (r : Bool) : PolicySystem Result S ε T :=
  { s.goto t .idle with returned := s.returned ++ [(t, r)] }

/-- Thread `t` may call `Complete`: the constructor has returned, and the thread is in no other
    call. -/
def mayCall (s : PolicySystem Result S ε T) (t : T) : Bool :=
  s.block.state ≠ .created && s.complete t = .idle && s.completionTask.pc (some t) = .idle

/-- The holder of `_stateMutex` has moved the queue to `q`. Where it has completed
    `_completedTaskPromise`, it is in the continuation. -/
def advanced (s : PolicySystem Result S ε T) (next : NextCall Unit ε)
    (q : HandlerSystem Unit (ScheduledFunction Result S ε × ℕ) (ReplyState (Option Result) S ε) ε) :
    Option (PolicySystem Result S ε T) :=
  let s' := { s with actorQueue := q, complete := fun t => (s.complete t).advance next }
  if (q.dataflow.block ()).completedTask.state.isCompleted ∧ ¬ s.block.completedTask.state.isCompleted
  then (TaskSystem.step .function s.completionTask (.start none)).map fun c =>
    { s' with completionTask := c }
  else some s'

/-- What is done with `_completionTask`: nobody starts it, and its token is never cancelled. -/
def allows (s : PolicySystem Result S ε T) : TaskLabel Unit ε T → Bool
  | .start _ | .set _ _ | .cancel => false
  | .addContinuation t | .wait t _ | .body t => s.complete t = .idle
  | .spuriousWake _ | .call _ _ | .run _ => true

def step (members : S) (s : PolicySystem Result S ε T) :
    PolicyLabel Result S ε T → Option (PolicySystem Result S ε T)
  | .start => if s.block.startedBy = [] then s.queueStep members (.dataflow (.start ())) else none
  | .scheduleFunction func =>
    if s.block.state ≠ .created then
      s.queueStep members (.dataflow (.acceptInputAsync () (func, s.actorQueue.dataflow.calls)))
    else none
  | .accept k => s.queueStep members (.dataflow (.runCall k))
  | .coroutine k =>
    ((s.coroutine k).step (s.actorQueue.dataflow.call k) (s.block.nodeState.reply k)).map fun pc =>
      { s with coroutine := Function.update s.coroutine k pc }
  | .call => s.queueStep members (.call ())
  | .process => s.queueStep members (.dataflow (.process ()))
  | .runFaultThread => s.queueStep members (.dataflow (.runFaultThread ()))
  | .advance =>
    if s.completionTask.pc none = .idle then
      s.block.advance.bind fun (_, next) =>
        (HandlerSystem.step (ActorPolicy.actorQueue members) s.actorQueue
          (.dataflow (.advance ()))).bind (s.advanced next)
    else none
  | .starting => (s.completionTask.runStep none).map fun c => { s with completionTask := c }
  | .complete t canCompleteNow =>
    if s.mayCall t then
      if canCompleteNow then some (s.goto t .queueComplete) else some (s.returns t false)
    else none
  | .queueComplete t =>
    if s.complete t = .queueComplete then
      (s.block.completeCommon .user none).bind fun (_, r) =>
        (s.queueStep members (.dataflow (.complete ()))).map fun s' => s'.goto t (.reply r)
    else none
  | .wait t =>
    if s.complete t = .wait then
      (TaskSystem.step .function s.completionTask (.wait (some t) false)).map fun c =>
        { s.goto t .waiting with completionTask := c }
    else none
  | .completeReturns t =>
    if s.complete t = .waiting ∧ s.completionTask.pc (some t) = .idle ∨ s.complete t = .caught then
      some (s.returns t true)
    else none
  | .completion l =>
    if s.allows l then
      (TaskSystem.step .function s.completionTask (l.map some)).map fun c =>
        { s with completionTask := c }
    else none

end PolicySystem

/-- An actor before its constructor has started the queue. -/
def policyMachine (members : S) (T : Type) [DecidableEq T] :
    Machine (PolicySystem Result S ε T) (PolicyLabel Result S ε T) where
  init := { actorQueue := (handlerMachine (actorQueue members)).init }
  step := PolicySystem.step members

/-! ## The steps -/

namespace PolicySystem

variable [DecidableEq T] {members : S} {s s' : PolicySystem Result S ε T}
  {l : PolicyLabel Result S ε T}

/-- The step of the queue that a step is. -/
def queueLabel (s : PolicySystem Result S ε T) :
    PolicyLabel Result S ε T → Option (HandlerLabel Unit (ScheduledFunction Result S ε × ℕ) ε)
  | .start => some (.dataflow (.start ()))
  | .scheduleFunction func =>
    some (.dataflow (.acceptInputAsync () (func, s.actorQueue.dataflow.calls)))
  | .accept k => some (.dataflow (.runCall k))
  | .call => some (.call ())
  | .process => some (.dataflow (.process ()))
  | .runFaultThread => some (.dataflow (.runFaultThread ()))
  | .advance => some (.dataflow (.advance ()))
  | .queueComplete _ => some (.dataflow (.complete ()))
  | .coroutine _ | .starting | .complete _ _ | .wait _ | .completeReturns _ | .completion _ => none

/-- What the code of the actor itself sees to when it calls the queue. -/
def Checked (s : PolicySystem Result S ε T) :
    HandlerLabel Unit (ScheduledFunction Result S ε × ℕ) ε → Prop
  | .dataflow (.start _) => s.block.startedBy = []
  | .dataflow (.acceptInputAsync _ item) =>
    s.block.state ≠ .created ∧ item.2 = s.actorQueue.dataflow.calls
  | .dataflow (.runCall _) | .dataflow (.process _) | .dataflow (.runFaultThread _) | .call _ => True
  | _ => False

/-- What a step can be. -/
inductive PolicyStep (members : S) (s : PolicySystem Result S ε T) :
    PolicyLabel Result S ε T → PolicySystem Result S ε T → Prop
  | queue {l : PolicyLabel Result S ε T}
    {a : HandlerLabel Unit (ScheduledFunction Result S ε × ℕ) ε}
    {q : HandlerSystem Unit (ScheduledFunction Result S ε × ℕ) (ReplyState (Option Result) S ε) ε}
    (hl : s.queueLabel l = some a) (ha : s.Checked a)
    (hq : HandlerSystem.step (ActorPolicy.actorQueue members) s.actorQueue a = some q) :
    PolicyStep members s l { s with actorQueue := q }
  | queueComplete {t : T}
    {b : Block Unit (ScheduledFunction Result S ε × ℕ) (ReplyState (Option Result) S ε) ε}
    {r : Reply Unit ε}
    {q : HandlerSystem Unit (ScheduledFunction Result S ε × ℕ) (ReplyState (Option Result) S ε) ε}
    (ht : s.complete t = .queueComplete) (hb : s.block.completeCommon .user none = some (b, r))
    (hq : HandlerSystem.step (ActorPolicy.actorQueue members) s.actorQueue
      (.dataflow (.complete ())) = some q) :
    PolicyStep members s (.queueComplete t) ({ s with actorQueue := q }.goto t (.reply r))
  | advance {s' : PolicySystem Result S ε T}
    {b : Block Unit (ScheduledFunction Result S ε × ℕ) (ReplyState (Option Result) S ε) ε}
    {next : NextCall Unit ε}
    {q : HandlerSystem Unit (ScheduledFunction Result S ε × ℕ) (ReplyState (Option Result) S ε) ε}
    (hidle : s.completionTask.pc none = .idle) (hb : s.block.advance = some (b, next))
    (hq : HandlerSystem.step (ActorPolicy.actorQueue members) s.actorQueue
      (.dataflow (.advance ())) = some q) (hs : s.advanced next q = some s') :
    PolicyStep members s .advance s'
  | coroutine {k : ℕ} {pc : SchedulePc Result ε}
    (hpc : (s.coroutine k).step (s.actorQueue.dataflow.call k) (s.block.nodeState.reply k) =
      some pc) :
    PolicyStep members s (.coroutine k)
      { s with coroutine := Function.update s.coroutine k pc }
  | starting {c : TaskSystem Unit ε (Option T)} (hc : s.completionTask.runStep none = some c) :
    PolicyStep members s .starting { s with completionTask := c }
  | accepted {t : T} (ht : s.mayCall t) :
    PolicyStep members s (.complete t true) (s.goto t .queueComplete)
  | refused {t : T} (ht : s.mayCall t) :
    PolicyStep members s (.complete t false) (s.returns t false)
  | wait {t : T} {c : TaskSystem Unit ε (Option T)} (ht : s.complete t = .wait)
    (hc : TaskSystem.step .function s.completionTask (.wait (some t) false) = some c) :
    PolicyStep members s (.wait t) { s.goto t .waiting with completionTask := c }
  | completeReturns {t : T}
    (ht : s.complete t = .waiting ∧ s.completionTask.pc (some t) = .idle ∨
      s.complete t = .caught) :
    PolicyStep members s (.completeReturns t) (s.returns t true)
  | completion {l : TaskLabel Unit ε T} {c : TaskSystem Unit ε (Option T)} (hl : s.allows l)
    (hc : TaskSystem.step .function s.completionTask (l.map some) = some c) :
    PolicyStep members s (.completion l) { s with completionTask := c }

omit [DecidableEq T] in
theorem queueStep_cases {a : HandlerLabel Unit (ScheduledFunction Result S ε × ℕ) ε}
    (hs : s.queueStep members a = some s') :
    ∃ q, HandlerSystem.step (ActorPolicy.actorQueue members) s.actorQueue a = some q ∧
      s' = { s with actorQueue := q } := by
  obtain ⟨q, hq, rfl⟩ := Option.map_eq_some_iff.mp hs
  exact ⟨q, hq, rfl⟩

theorem step_cases (hs : s.step members l = some s') : PolicyStep members s l s' := by
  cases l with
  | start =>
    simp only [step] at hs
    split_ifs at hs with hfirst
    obtain ⟨q, hq, rfl⟩ := queueStep_cases hs
    exact .queue rfl hfirst hq
  | scheduleFunction func =>
    simp only [step] at hs
    split_ifs at hs with hst
    obtain ⟨q, hq, rfl⟩ := queueStep_cases hs
    exact .queue rfl ⟨hst, rfl⟩ hq
  | accept k | call | process | runFaultThread =>
    obtain ⟨q, hq, rfl⟩ := queueStep_cases hs
    exact .queue rfl trivial hq
  | coroutine k =>
    obtain ⟨pc, hpc, rfl⟩ := Option.map_eq_some_iff.mp hs
    exact .coroutine hpc
  | advance =>
    simp only [step] at hs
    split_ifs at hs with hidle
    obtain ⟨⟨b, next⟩, hb, hs⟩ := Option.bind_eq_some_iff.mp hs
    obtain ⟨q, hq, hs⟩ := Option.bind_eq_some_iff.mp hs
    exact .advance hidle hb hq hs
  | starting =>
    obtain ⟨c, hc, rfl⟩ := Option.map_eq_some_iff.mp hs
    exact .starting hc
  | complete t canCompleteNow =>
    simp only [step] at hs
    split_ifs at hs with ht hcan <;> cases hs
    · subst hcan
      exact .accepted ht
    · obtain rfl : canCompleteNow = false := by simpa using hcan
      exact .refused ht
  | queueComplete t =>
    simp only [step] at hs
    split_ifs at hs with ht
    obtain ⟨⟨b, r⟩, hb, hs⟩ := Option.bind_eq_some_iff.mp hs
    obtain ⟨s₁, hs₁, rfl⟩ := Option.map_eq_some_iff.mp hs
    obtain ⟨q, hq, rfl⟩ := queueStep_cases hs₁
    exact .queueComplete ht hb hq
  | wait t =>
    simp only [step] at hs
    split_ifs at hs with ht
    obtain ⟨c, hc, rfl⟩ := Option.map_eq_some_iff.mp hs
    exact .wait ht hc
  | completeReturns t =>
    simp only [step] at hs
    split_ifs at hs with ht
    cases hs
    exact .completeReturns ht
  | completion l =>
    simp only [step] at hs
    split_ifs at hs with hl
    obtain ⟨c, hc, rfl⟩ := Option.map_eq_some_iff.mp hs
    exact .completion hl hc

end PolicySystem

end ActorPolicy

end AsyncCpp.Actors
