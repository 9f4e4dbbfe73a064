import Mathlib.Data.Fintype.Sum
import Mathlib.Tactic.DeriveFintype
import AsyncCpp.Tasks.DroppedTask

/-!
# `co_await` of a task

Model of `SyncContextAwareTaskAwaiter` (Tasks/Task.h:150-209). `await_ready` and `await_suspend`
both ask whether the task is completed. A coroutine that has to wait is resumed by a continuation
task of its own, whose function invokes the handle of the coroutine or posts it to the
synchronization context that was current when the coroutine suspended. `ContinueWith` may run
that function before `await_suspend` returns, and the coroutine may go on while the thread that
suspended it is still inside `AddContinuation`. `await_resume` is a call of `Wait()` or `Result()`.

The program is any number of `co_await` expressions of one task of any kind, and whatever else
threads do to the task. The settings of GlobalTaskSettings.h can change at any moment, and so can
the current context: a label carries what a call reads of them. A context invokes what it was
given to post, when it likes.

Results:
* `AwaitInv.task_step`: what the threads and the continuation tasks do keeps the invariant
  `AwaitInv`, in which each coroutine, its continuation task and its calls on the task fit together.
-/

namespace AsyncCpp.Tasks

open Interleaving

variable {α ε T A C : Type*} {β : ℕ → Type*} {kind : TaskKind} {returnsResult : Bool}

/-! ## The awaiter -/

/-- The keys of Tasks/GlobalTaskSettings.h. -/
structure GlobalTaskSettings where
  useOnlyConfigureAwaitFalseBehavior : Bool := false
  taskAwaiterAwaitReadyAlwaysReturnsFalse : Bool := false

/-- Who is inside the code of a task: a thread that is not inside a `co_await`, or a `co_await` in
    its `await_suspend` or `await_resume`. -/
inductive AwaitThread (T A : Type*) where
  | thread (t : T)
  | awaitSuspend (a : A)
  | awaitResume (a : A)
  deriving DecidableEq, Fintype

/-- Where the coroutine of a `co_await` is. -/
inductive AwaitPc (α ε C : Type*) where
  | before
  /-- `await_ready` returned `false`: the coroutine is suspended. -/
  | suspend (continueOnCapturedContext : Bool)
  /-- `await_suspend` saw the task not completed, before `Current()`. -/
  | capture (continueOnCapturedContext : Bool)
  /-- `await_suspend` has called `ContinueWith`, for continuation `k`. -/
  | suspended (k : ℕ)
  /-- The synchronization context has the handle to invoke. -/
  | posted (syncContext : C)
  /-- The coroutine goes on, before `await_resume`. -/
  | resumed
  | resuming
  | finished (outcome : Except (Option (Exn ε)) (Option α))
  /-- The handle was invoked or posted without a coroutine that waits for it. -/
  | undefined

/-- What the function given to `ContinueWith` captures: the handle of a coroutine, and the context
    it is posted to, if any (Task.h:174-184). -/
structure AwaitContinuation (A C : Type*) where
  continuation : A
  syncContext : Option C

/-- The context to post to, of the one that is current; `none` is the default context
    (Task.h:173-176). -/
def capturedContext (settings : GlobalTaskSettings) (continueOnCapturedContext : Bool)
    (current : Option C) : Option C :=
  if settings.useOnlyConfigureAwaitFalseBehavior || !continueOnCapturedContext then none
  else current

/-- The task with its continuation tasks, the coroutines, and what the function of a continuation
    task captured, if `await_suspend` made the task. `invoked k u` says that the call of that
    function by thread `u`, which is going on, has invoked or posted the handle. The last field is
    history: the coroutines whose handle was invoked, with the context that did so and the state
    of the task. -/
structure AwaitSystem (α : Type*) (β : ℕ → Type*) (ε T A C : Type*) where
  tasks : ContinuationRun α β ε (AwaitThread T A) := {}
  pc : A → AwaitPc α ε C := fun _ => .before
  continuation : ℕ → Option (AwaitContinuation A C) := fun _ => none
  invoked : ℕ → AwaitThread T A → Bool := fun _ _ => false
  resumptions : List (A × Option C × TaskState) := []

/-- Who moves: the task or a continuation task; or the `co_await` `a`, with what it reads of the
    settings and of the current context. `invoke k u` is the function of continuation task `k`,
    which thread `u` has called. -/
inductive AwaitLabel (α : Type*) (β : ℕ → Type*) (ε T A C : Type*) where
  | task (l : ContinuationLabel α β ε (AwaitThread T A))
  | awaitReady (a : A) (settings : GlobalTaskSettings) (continueOnCapturedContext : Bool)
  | awaitSuspend (a : A) (settings : GlobalTaskSettings)
  | continueWith (a : A) (settings : GlobalTaskSettings) (current : Option C)
  | invoke (k : ℕ) (u : AwaitThread T A)
  | runPosted (a : A)
  | awaitResume (a : A)
  | resume (a : A)

/-- The steps of the item a scheduler runs. -/
def TaskLabel.ofItem : TaskLabel α ε T → Bool
  | .body _ | .run _ | .call _ _ => true
  | _ => false

namespace AwaitSystem

/-- What others may do. The calls of a `co_await` on the task are its own. Of the task that
    `await_suspend` made nobody keeps a handle, and its token is `None()`: the scheduler runs it,
    and its function ends after it has invoked or posted the coroutine. -/
def permits (s : AwaitSystem α β ε T A C) : ContinuationLabel α β ε (AwaitThread T A) → Bool
  | .antecedent (.run (.awaitSuspend _)) => true
  | .antecedent l => match l.thread with
    | some (.awaitSuspend _) | some (.awaitResume _) => false
    | _ => true
  | .continuation k l => (s.continuation k).isNone ||
    match l with
    | .call u _ => s.invoked k u
    | l => l.ofItem
  | _ => true

/-- The calls of a `co_await` on the task are its own. -/
theorem thread_of_permits {s : AwaitSystem α β ε T A C} {l : TaskLabel α ε (AwaitThread T A)}
    (hp : s.permits (.antecedent l)) (a : A) : l.thread ≠ some (.awaitResume a) ∧
      (l.thread = some (.awaitSuspend a) → l = .run (.awaitSuspend a)) := by
  cases l with
  | cancel => exact ⟨nofun, nofun⟩
  | run t | addContinuation t | start t | body t | set t | wait t | spuriousWake t | call t =>
    cases t <;> simp_all [AwaitSystem.permits, TaskLabel.thread]

/-- The calls of the functions that have invoked or posted their handle, after a step of the
    tasks. -/
def invokedAfter [DecidableEq T] [DecidableEq A] (invoked : ℕ → AwaitThread T A → Bool) :
    ContinuationLabel α β ε (AwaitThread T A) → ℕ → AwaitThread T A → Bool
  | .continuation k (.call u _) =>
    Function.update invoked k (Function.update (invoked k) u false)
  | _ => invoked

variable [DecidableEq T] [DecidableEq A]

theorem invokedAfter_of_ne {invoked : ℕ → AwaitThread T A → Bool}
    {l : ContinuationLabel α β ε (AwaitThread T A)} {k : ℕ}
    (hl : ∀ u r, l ≠ .continuation k (.call u r)) : invokedAfter invoked l k = invoked k := by
  unfold invokedAfter
  split
  case h_1 j u r =>
    refine Function.update_of_ne ?_ ..
    rintro rfl
    exact hl u r rfl
  case h_2 => rfl

theorem invokedAfter_eq_true {invoked : ℕ → AwaitThread T A → Bool}
    {l : ContinuationLabel α β ε (AwaitThread T A)} {k : ℕ} {u : AwaitThread T A}
    (hu : invokedAfter invoked l k u = true) :
    invoked k u = true ∧ ∀ r, l ≠ .continuation k (.call u r) := by
  by_cases hl : ∃ v r, l = .continuation k (.call v r)
  · obtain ⟨v, r, rfl⟩ := hl
    simp only [invokedAfter, Function.update_self] at hu
    by_cases huv : u = v
    · subst huv
      rw [Function.update_self] at hu
      cases hu
    · rw [Function.update_of_ne huv] at hu
      refine ⟨hu, fun r' heq => huv ?_⟩
      cases heq
      rfl
  · have hne : ∀ v r, l ≠ .continuation k (.call v r) := fun v r heq => hl ⟨v, r, heq⟩
    rw [invokedAfter_of_ne hne] at hu
    exact ⟨hu, hne u⟩

@[simp] def goto (s : AwaitSystem α β ε T A C) (a : A) (p : AwaitPc α ε C) :
    AwaitSystem α β ε T A C :=
  { s with pc := Function.update s.pc a p }

/-- The question of `await_ready` and `await_suspend`, whether the task is completed
    (Task.h:160, 169); `none` while the lock `State()` takes is not free. -/
def asksCompleted (s : AwaitSystem α β ε T A C) (settings : GlobalTaskSettings) : Option Bool :=
  if settings.taskAwaiterAwaitReadyAlwaysReturnsFalse then some false
  else if s.tasks.antecedent.lockObject.isNone then
    some s.tasks.antecedent.task.state.isCompleted
  else none

/-- `syncContext`, or the function itself, invokes the handle of the coroutine. -/
def resumeHandle (s : AwaitSystem α β ε T A C) (a : A) (syncContext : Option C) :
    AwaitSystem α β ε T A C :=
  { s.goto a (match s.pc a with
      | .suspended _ | .posted _ => .resumed
      | _ => .undefined) with
    resumptions := s.resumptions ++ [(a, syncContext, s.tasks.antecedent.task.state)] }

/-- The function of a continuation task invokes or posts the handle (Task.h:178, 182-184). -/
def runContinuation (s : AwaitSystem α β ε T A C) (c : AwaitContinuation A C) :
    AwaitSystem α β ε T A C :=
  match c.syncContext with
  | none => s.resumeHandle c.continuation none
  | some syncContext => s.goto c.continuation (match s.pc c.continuation with
    | .suspended _ => .posted syncContext
    | _ => .undefined)

/-- Where `await_resume` is after a step of its `Wait()` or `Result()`. -/
def afterResume (s : TaskSystem α ε (AwaitThread T A)) (a : A) : AwaitPc α ε C :=
  if s.pc (.awaitResume a) = .idle then
    match s.waitLog.getLast? with
    | some outcome => .finished outcome
    | none => .undefined
  else .resuming

def step (kind : TaskKind) (returnsResult : Bool) (s : AwaitSystem α β ε T A C) :
    AwaitLabel α β ε T A C → Option (AwaitSystem α β ε T A C)
  | .task l =>
    if s.permits l then
      (s.tasks.step kind l).map fun tasks =>
        { s with tasks := tasks, invoked := invokedAfter s.invoked l }
    else none
  | .awaitReady a settings continueOnCapturedContext =>
    match s.pc a with
    | .before => (s.asksCompleted settings).map fun completed =>
        s.goto a (if completed then .resumed else .suspend continueOnCapturedContext)
    | _ => none
  | .awaitSuspend a settings =>
    match s.pc a with
    | .suspend continueOnCapturedContext => (s.asksCompleted settings).map fun completed =>
        s.goto a (if completed then .resumed else .capture continueOnCapturedContext)
    | _ => none
  | .continueWith a settings current =>
    match s.pc a with
    | .capture continueOnCapturedContext =>
      (s.tasks.step kind (.antecedent (.addContinuation (.awaitSuspend a)))).map fun tasks =>
        { s.goto a (.suspended s.tasks.antecedent.added) with
          tasks := tasks
          continuation := Function.update s.continuation s.tasks.antecedent.added
            (some ⟨a, capturedContext settings continueOnCapturedContext current⟩) }
    | _ => none
  | .invoke k u =>
    match s.continuation k with
    | none => none
    | some c =>
      if (s.tasks.continuation k).pc (some u) = .bodyCall ∧
          (s.tasks.continuation k).task.func.isNone ∧ s.invoked k u = false then
        some { s.runContinuation c with
          invoked := Function.update s.invoked k (Function.update (s.invoked k) u true) }
      else none
  | .runPosted a =>
    match s.pc a with
    | .posted syncContext => some (s.resumeHandle a (some syncContext))
    | _ => none
  | .awaitResume a =>
    match s.pc a with
    | .resumed =>
      (s.tasks.step kind (.antecedent (.wait (.awaitResume a) returnsResult))).map fun tasks =>
        { s.goto a .resuming with tasks := tasks }
    | _ => none
  | .resume a =>
    match s.pc a with
    | .resuming =>
      (s.tasks.step kind (.antecedent (.run (.awaitResume a)))).map fun tasks =>
        { s.goto a (afterResume tasks.antecedent a) with tasks := tasks }
    | _ => none

/-- What a step can be, one constructor for each call of the awaiter. -/
inductive AwaitStep (kind : TaskKind) (returnsResult : Bool) (s : AwaitSystem α β ε T A C) :
    AwaitLabel α β ε T A C → AwaitSystem α β ε T A C → Prop
  | task {l tasks} (hp : s.permits l) (htasks : s.tasks.step kind l = some tasks) :
    AwaitStep kind returnsResult s (.task l)
      { s with tasks := tasks, invoked := invokedAfter s.invoked l }
  | awaitReady {a settings b completed} (hpc : s.pc a = .before)
      (hcompleted : s.asksCompleted settings = some completed) :
    AwaitStep kind returnsResult s (.awaitReady a settings b)
      (s.goto a (if completed then .resumed else .suspend b))
  | awaitSuspend {a settings b completed} (hpc : s.pc a = .suspend b)
      (hcompleted : s.asksCompleted settings = some completed) :
    AwaitStep kind returnsResult s (.awaitSuspend a settings)
      (s.goto a (if completed then .resumed else .capture b))
  | continueWith {a settings current b tasks} (hpc : s.pc a = .capture b)
      (htasks : s.tasks.step kind (.antecedent (.addContinuation (.awaitSuspend a))) =
        some tasks) :
    AwaitStep kind returnsResult s (.continueWith a settings current)
      { s.goto a (.suspended s.tasks.antecedent.added) with
        tasks := tasks
        continuation := Function.update s.continuation s.tasks.antecedent.added
          (some ⟨a, capturedContext settings b current⟩) }
  | invoke {k u c} (hc : s.continuation k = some c)
      (hu : (s.tasks.continuation k).pc (some u) = .bodyCall)
      (hf : (s.tasks.continuation k).task.func.isNone) (hnot : s.invoked k u = false) :
    AwaitStep kind returnsResult s (.invoke k u) { s.runContinuation c with
      invoked := Function.update s.invoked k (Function.update (s.invoked k) u true) }
  | runPosted {a syncContext} (hpc : s.pc a = .posted syncContext) :
    AwaitStep kind returnsResult s (.runPosted a) (s.resumeHandle a (some syncContext))
  | awaitResume {a tasks} (hpc : s.pc a = .resumed)
      (htasks : s.tasks.step kind (.antecedent (.wait (.awaitResume a) returnsResult)) =
        some tasks) :
    AwaitStep kind returnsResult s (.awaitResume a) { s.goto a .resuming with tasks := tasks }
  | resume {a tasks} (hpc : s.pc a = .resuming)
      (htasks : s.tasks.step kind (.antecedent (.run (.awaitResume a))) = some tasks) :
    AwaitStep kind returnsResult s (.resume a)
      { s.goto a (afterResume tasks.antecedent a) with tasks := tasks }

theorem step_cases {s s' : AwaitSystem α β ε T A C} {l : AwaitLabel α β ε T A C}
    (hs : s.step kind returnsResult l = some s') : AwaitStep kind returnsResult s l s' := by
  unfold step at hs
  split at hs
  case h_1 l =>
    split at hs
    case isFalse => cases hs
    case isTrue hp =>
      obtain ⟨tasks, htasks, rfl⟩ := Option.map_eq_some_iff.mp hs
      exact .task hp htasks
  case h_2 a settings b =>
    split at hs
    case h_2 => cases hs
    case h_1 hpc =>
      obtain ⟨completed, hcompleted, rfl⟩ := Option.map_eq_some_iff.mp hs
      exact .awaitReady hpc hcompleted
  case h_3 a settings =>
    split at hs
    case h_2 => cases hs
    case h_1 b hpc =>
      obtain ⟨completed, hcompleted, rfl⟩ := Option.map_eq_some_iff.mp hs
      exact .awaitSuspend hpc hcompleted
  case h_4 a settings current =>
    split at hs
    case h_2 => cases hs
    case h_1 b hpc =>
      obtain ⟨tasks, htasks, rfl⟩ := Option.map_eq_some_iff.mp hs
      exact .continueWith hpc htasks
  case h_5 k u =>
    split at hs
    case h_1 => cases hs
    case h_2 c hc =>
      split at hs <;> cases hs
      case isTrue hen => exact .invoke hc hen.1 hen.2.1 hen.2.2
  case h_6 a =>
    split at hs <;> cases hs
    case h_1 syncContext hpc => exact .runPosted hpc
  case h_7 a =>
    split at hs
    case h_2 => cases hs
    case h_1 hpc =>
      obtain ⟨tasks, htasks, rfl⟩ := Option.map_eq_some_iff.mp hs
      exact .awaitResume hpc htasks
  case h_8 a =>
    split at hs
    case h_2 => cases hs
    case h_1 hpc =>
      obtain ⟨tasks, htasks, rfl⟩ := Option.map_eq_some_iff.mp hs
      exact .resume hpc htasks

end AwaitSystem

/-- The machine of the `co_await` expressions of a task of the given kind; `returnsResult` says
    whether the task returns a value. -/
def awaitMachine (kind : TaskKind) (returnsResult : Bool) (α : Type*) (β : ℕ → Type*)
    (ε T A C : Type*) [DecidableEq T] [DecidableEq A] :
    Machine (AwaitSystem α β ε T A C) (AwaitLabel α β ε T A C) where
  init := {}
  step := AwaitSystem.step kind returnsResult

/-- On a task that a `co_await` made, others do what the scheduler does. -/
theorem ofDropped_of_permits {s : AwaitSystem α β ε T A C} {k : ℕ}
    {l : TaskLabel (β k) ε (AwaitThread T A)}
    (hp : s.permits (.continuation k l)) (hk : s.continuation k ≠ none) :
    (l.map some).ofDropped := by
  have hk' : (s.continuation k).isNone = false := by
    simpa [Option.isSome_iff_ne_none] using hk
  cases l <;> simp_all [AwaitSystem.permits, TaskLabel.map, TaskLabel.ofDropped, TaskLabel.ofItem]

variable [Fintype T]

/-! ## The invariant -/

/-- What `await_resume` yields of a completed task. -/
def awaitOutcome (returnsResult : Bool) (s : TaskSharedState α ε) :
    Except (Option (Exn ε)) (Option α) :=
  if returnsResult then s.resultOutcome else s.waitOutcome.map fun _ => none

/-- `Wait()` and `Result()` of a completed task do not wait. -/
theorem run_awaitOutcome [DecidableEq T] {s s' : TaskSystem α ε T} {t : T} {result : Bool}
    (hi : Inv s) (hc : s.task.state.isCompleted)
    (hpc : s.pc t = .waitRead result ∨ result = true ∧ s.pc t = .resultCall)
    (hs : s.runStep t = some s') :
    s'.task = s.task ∧ (result = true ∧ s'.pc t = .resultCall ∨
      s'.pc t = .idle ∧ s'.waitLog.getLast? = some (awaitOutcome result s.task)) := by
  have hok := hi.pc t
  obtain hpc | ⟨rfl, hpc⟩ := hpc
  · cases runStep_cases hs with
    | @waitThrows r e hpc' hc' hw =>
      cases hpc.symm.trans hpc'
      refine ⟨rfl, .inr ⟨Function.update_self .., ?_⟩⟩
      cases result <;> simp [awaitOutcome, TaskSharedState.resultOutcome, hw, Except.map]
    | waitResult hpc' hc' hw =>
      cases hpc.symm.trans hpc'
      exact ⟨rfl, .inl ⟨rfl, Function.update_self ..⟩⟩
    | waitReturns hpc' hc' hw =>
      cases hpc.symm.trans hpc'
      refine ⟨rfl, .inr ⟨Function.update_self .., ?_⟩⟩
      simp [awaitOutcome, hw, Except.map]
    | waitAgain hpc' hc' => exact absurd hc hc'
    | _ => simp_all
  · cases runStep_cases hs with
    | resultCall hpc' hf =>
      rw [hpc] at hok
      refine ⟨rfl, .inr ⟨Function.update_self .., ?_⟩⟩
      have hw : s.task.waitOutcome = .ok () := if_pos hok
      simp [awaitOutcome, TaskSharedState.resultOutcome, hw, hf, Except.map]
    | _ => simp_all

namespace AwaitPc

/-- The continuation that has still to resume the coroutine. -/
def waitsFor : AwaitPc α ε C → Option ℕ
  | suspended k => some k
  | _ => none

/-- The coroutine will not be suspended again. -/
def isPast : AwaitPc α ε C → Bool
  | resumed | resuming | finished _ => true
  | _ => false

/-- What the place of a coroutine says about the task. -/
def Ok (returnsResult : Bool) (s : TaskSystem α ε (AwaitThread T A)) (a : A) :
    AwaitPc α ε C → Prop
  | before | suspend _ | capture _ =>
    s.pc (.awaitSuspend a) = .idle ∧ s.pc (.awaitResume a) = .idle
  | suspended _ => s.pc (.awaitResume a) = .idle
  | posted _ | resumed => s.pc (.awaitResume a) = .idle ∧ s.task.state.isCompleted
  | resuming => s.task.state.isCompleted ∧
    (s.pc (.awaitResume a) = .waitRead returnsResult ∨
      returnsResult = true ∧ s.pc (.awaitResume a) = .resultCall)
  | finished outcome => s.pc (.awaitResume a) = .idle ∧ s.task.state.isCompleted ∧
    outcome = awaitOutcome returnsResult s.task
  | undefined => False

omit [Fintype T] in
/-- The calls of the coroutine stay where they are, and a completed task keeps its outcome. -/
theorem Ok.congr {s s' : TaskSystem α ε (AwaitThread T A)} {a : A} {p : AwaitPc α ε C}
    (h : p.Ok returnsResult s a)
    (hsuspend : s.pc (.awaitSuspend a) = .idle → s'.pc (.awaitSuspend a) = .idle)
    (hresume : s'.pc (.awaitResume a) = s.pc (.awaitResume a) ∨
      s'.pc (.awaitResume a) = (s.pc (.awaitResume a)).wake)
    (htask : s.task.state.isCompleted → SameOutcome s.task s'.task) : p.Ok returnsResult s' a := by
  have hidle : s.pc (.awaitResume a) = .idle → s'.pc (.awaitResume a) = .idle := by
    intro hp
    rw [hp] at hresume
    exact hresume.elim id id
  have hcompleted : s.task.state.isCompleted → s'.task.state.isCompleted := by
    intro hc
    rw [(htask hc).1]
    exact hc
  cases p with
  | before | suspend | capture => exact ⟨hsuspend h.1, hidle h.2⟩
  | suspended k => exact hidle h
  | posted | resumed => exact ⟨hidle h.1, hcompleted h.2⟩
  | resuming =>
    refine ⟨hcompleted h.1, h.2.imp (fun hp => ?_) fun ⟨hr, hp⟩ => ⟨hr, ?_⟩⟩ <;>
    · rw [hp] at hresume
      exact hresume.elim id id
  | finished outcome =>
    refine ⟨hidle h.1, hcompleted h.2.1, h.2.2.trans ?_⟩
    simp only [awaitOutcome, (htask h.2.1).waitOutcome, (htask h.2.1).resultOutcome]
  | undefined => exact h

omit [Fintype T] in
/-- `await_resume` invokes no continuation. -/
theorem Ok.invokes_eq_none {s : TaskSystem α ε (AwaitThread T A)} {a : A} {p : AwaitPc α ε C}
    (h : p.Ok returnsResult s a) : (s.pc (.awaitResume a)).invokes = none := by
  cases p with
  | before | suspend | capture =>
    rw [h.2]
    rfl
  | suspended k =>
    rw [show s.pc (.awaitResume a) = .idle from h]
    rfl
  | posted | resumed | finished =>
    rw [h.1]
    rfl
  | resuming => obtain ⟨-, hp | ⟨-, hp⟩⟩ := h <;> rw [hp] <;> rfl
  | undefined => cases h

end AwaitPc

namespace AwaitSystem

/-- The function of continuation task `k` has not invoked or posted anything. -/
def Untouched (s : AwaitSystem α β ε T A C) (k : ℕ) : Prop :=
  (s.tasks.continuation k).funcLog = [] ∧ ∀ u, s.invoked k u = false

end AwaitSystem

/-- The coroutines, the continuation tasks and what they captured fit together. -/
structure AwaitInv [Fintype A] [DecidableEq T] [DecidableEq A] (kind : TaskKind)
    (returnsResult : Bool) (s : AwaitSystem α β ε T A C) : Prop where
  tasks : (continuationMachine kind α β ε (AwaitThread T A)).Reachable StartedInOrder s.tasks
  place : ∀ a, (s.pc a).Ok returnsResult s.tasks.antecedent a
  dropped : ∀ k, (s.continuation k = none → s.tasks.antecedent.added ≤ k) →
    DroppedOk (s.tasks.continuation k)
  waits : ∀ k c, s.continuation k = some c → k < s.tasks.antecedent.added ∧
    ((s.pc c.continuation).waitsFor = some k ↔ s.Untouched k)
  owner : ∀ a k, (s.pc a).waitsFor = some k → ∃ c, s.continuation k = some c ∧ c.continuation = a
  calls : ∀ k u, s.invoked k u →
    s.continuation k ≠ none ∧ (s.tasks.continuation k).pc (some u) = .bodyCall
  posted : ∀ a c, s.pc a = .posted c → ∃ k, s.continuation k = some ⟨a, some c⟩
  once : (s.resumptions.map Prod.fst).Nodup
  logged : ∀ r ∈ s.resumptions, r.2.2.isCompleted ∧ (s.pc r.1).isPast ∧
    ∃ k, s.continuation k = some ⟨r.1, r.2.1⟩

/-- The condition: `StartedInOrder`, where it is about the calls of others on the task and on
    their continuation tasks, or about the scheduler. -/
def AwaitGuard [DecidableEq T] [DecidableEq A] (s : AwaitSystem α β ε T A C) :
    AwaitLabel α β ε T A C → Prop
  | .task (.continuation k l) =>
    s.continuation k = none → StartedInOrder s.tasks (.continuation k l)
  | .task l => StartedInOrder s.tasks l
  | _ => True

namespace AwaitInv

variable [Fintype A] [DecidableEq T] [DecidableEq A] {s s' : AwaitSystem α β ε T A C}

theorem init : AwaitInv kind returnsResult ({} : AwaitSystem α β ε T A C) where
  tasks := .init
  place := fun _ => ⟨rfl, rfl⟩
  dropped := fun _ _ => .init
  waits := nofun
  owner := nofun
  calls := nofun
  posted := nofun
  once := .nil
  logged := nofun

/-- The coroutine of `a` moves, and waits for the continuation it waited for. The continuation
    tasks stay as they are. -/
theorem goto (h : AwaitInv kind returnsResult s) {a : A} {p : AwaitPc α ε C}
    {tasks : ContinuationRun α β ε (AwaitThread T A)}
    (htasks : (continuationMachine kind α β ε (AwaitThread T A)).Reachable StartedInOrder tasks)
    (hcont : tasks.continuation = s.tasks.continuation)
    (hadded : s.tasks.antecedent.added ≤ tasks.antecedent.added)
    (hplace : ∀ b, b ≠ a → (s.pc b).Ok returnsResult tasks.antecedent b)
    (hok : p.Ok returnsResult tasks.antecedent a)
    (hwaits : p.waitsFor = (s.pc a).waitsFor) (hpast : (s.pc a).isPast → p.isPast)
    (hposted : ∀ c, p ≠ .posted c) :
    AwaitInv kind returnsResult { s.goto a p with tasks := tasks } := by
  have hsame : ∀ b, (Function.update s.pc a p b).waitsFor = (s.pc b).waitsFor := by
    intro b
    by_cases hb : b = a
    · subst hb
      rw [Function.update_self, hwaits]
    · rw [Function.update_of_ne hb]
  refine ⟨htasks, ?_, fun k hk => ?_, fun k c hc => ?_, fun b k hb => ?_, fun k u hu => ?_,
    fun b c hb => ?_, h.once, fun r hr => ?_⟩
  · exact (Function.forall_update_iff s.pc fun b p => p.Ok returnsResult tasks.antecedent b).mpr
      ⟨hok, hplace⟩
  · simp only [hcont]
    exact h.dropped k fun hnone => hadded.trans (hk hnone)
  · refine ⟨(h.waits k c hc).1.trans_le hadded, ?_⟩
    simp only [AwaitSystem.goto, hsame, AwaitSystem.Untouched, hcont]
    exact (h.waits k c hc).2
  · exact h.owner b k (hsame b ▸ hb)
  · simp only [hcont]
    exact h.calls k u hu
  · by_cases hba : b = a
    · subst hba
      simp only [AwaitSystem.goto, Function.update_self] at hb
      exact absurd hb (hposted c)
    · simp only [AwaitSystem.goto, Function.update_of_ne hba] at hb
      exact h.posted b c hb
  · obtain ⟨hc, hp, hk⟩ := h.logged r hr
    refine ⟨hc, ?_, hk⟩
    by_cases hra : r.1 = a
    · simp only [AwaitSystem.goto, hra, Function.update_self]
      exact hpast (hra ▸ hp)
    · simp only [AwaitSystem.goto, Function.update_of_ne hra]
      exact hp

/-- A coroutine that is not past its suspension has no entry in the log. -/
theorem not_logged (h : AwaitInv kind returnsResult s) {a : A} (ha : (s.pc a).isPast = false) :
    ∀ r ∈ s.resumptions, r.1 ≠ a := by
  rintro r hr rfl
  have hpast := (h.logged r hr).2.1
  rw [ha] at hpast
  cases hpast

/-- A resumption is logged. -/
theorem log (h : AwaitInv kind returnsResult s) {a : A} {syncContext : Option C} {st : TaskState}
    (hnew : ∀ r ∈ s.resumptions, r.1 ≠ a) (hst : st.isCompleted) (hpast : (s.pc a).isPast)
    (hk : ∃ k, s.continuation k = some ⟨a, syncContext⟩) :
    AwaitInv kind returnsResult
      { s with resumptions := s.resumptions ++ [(a, syncContext, st)] } := by
  refine ⟨h.tasks, h.place, h.dropped, h.waits, h.owner, h.calls, h.posted, ?_, fun r hr => ?_⟩
  · simp only [List.map_append, List.map_cons, List.map_nil]
    refine List.nodup_append.mpr ⟨h.once, List.nodup_singleton _, fun b hb b' hb' heq => ?_⟩
    obtain ⟨r, hr, rfl⟩ := List.mem_map.mp hb
    rw [List.mem_singleton.mp hb'] at heq
    exact hnew r hr heq
  · obtain hold | hone := List.mem_append.mp hr
    · exact h.logged r hold
    · cases List.mem_singleton.mp hone
      exact ⟨hst, hpast, hk⟩

theorem started (h : AwaitInv kind returnsResult s)
    {l : ContinuationLabel α β ε (AwaitThread T A)} (hp : s.permits l)
    (hg : AwaitGuard s (.task l)) : StartedInOrder s.tasks l := by
  cases l with
  | continuation k l =>
    by_cases hk : s.continuation k = none
    · exact hg hk
    · -- no thread outside of the item of the task is inside `Start()`
      have hplaces := (h.dropped k fun hnone => absurd hnone hk).places
      cases l with
      | run u =>
        have hin := hplaces u
        refine ⟨fun hpc => ?_, fun hpc => ?_⟩ <;>
        · rw [hpc] at hin
          cases hin
      | _ => trivial
  | _ => exact hg

theorem place_step (h : AwaitInv kind returnsResult s)
    {l : ContinuationLabel α β ε (AwaitThread T A)}
    {tasks : ContinuationRun α β ε (AwaitThread T A)} (hp : s.permits l)
    (hg : StartedInOrder s.tasks l) (hs : s.tasks.step kind l = some tasks) (a : A) :
    (s.pc a).Ok returnsResult tasks.antecedent a := by
  have hi := reachable_continuationInv h.tasks
  obtain hsame | ⟨l', hl', hguard, hfrom⟩ := antecedent_cases hi hs hg
  · rw [hsame]
    exact h.place a
  have hthread : l'.thread ≠ some (.awaitResume a) ∧
      (l'.thread = some (.awaitSuspend a) → l' = .run (.awaitSuspend a)) := by
    obtain rfl | ⟨t, rfl, ht⟩ := hfrom
    · exact AwaitSystem.thread_of_permits hp a
    · refine ⟨fun heq => ht ?_, fun heq => ?_⟩ <;> cases heq
      · exact (h.place a).invokes_eq_none
      · rfl
  have hframe := (step_frame hl').2.1
  refine (h.place a).congr (fun hidle => ?_) (hframe _ hthread.1)
    ((reachable_inv hi.antecedent).frozen hguard hl')
  by_cases hsuspend : l'.thread = some (.awaitSuspend a)
  · cases hthread.2 hsuspend
    simp [TaskSystem.step, TaskSystem.runStep, hidle] at hl'
  · have hpc := hframe _ hsuspend
    rw [hidle] at hpc
    exact hpc.elim id id

theorem added_step (h : AwaitInv kind returnsResult s)
    {l : ContinuationLabel α β ε (AwaitThread T A)}
    {tasks : ContinuationRun α β ε (AwaitThread T A)} (hg : StartedInOrder s.tasks l)
    (hs : s.tasks.step kind l = some tasks) :
    s.tasks.antecedent.added ≤ tasks.antecedent.added := by
  obtain hsame | ⟨l', hl', -⟩ := antecedent_cases (reachable_continuationInv h.tasks) hs hg
  · rw [hsame]
  · exact (step_added hl').1

theorem dropped_step (h : AwaitInv kind returnsResult s)
    {l : ContinuationLabel α β ε (AwaitThread T A)}
    {tasks : ContinuationRun α β ε (AwaitThread T A)} (hp : s.permits l)
    (hg : StartedInOrder s.tasks l) (hs : s.tasks.step kind l = some tasks) {k : ℕ}
    (hk : s.continuation k = none → s.tasks.antecedent.added ≤ k) :
    DroppedOk (tasks.continuation k) := by
  have hi := reachable_continuationInv h.tasks
  have hok := h.dropped k hk
  obtain hsame | ⟨l', hl', hfrom⟩ := continuation_cases hs hg k
  · rw [hsame]
    exact hok
  refine hok.step (hi.task k) ?_ hl'
  obtain rfl | rfl | ⟨l₀, rfl, rfl, hlt⟩ := hfrom
  · rfl
  · rfl
  · exact ofDropped_of_permits hp fun hnone => absurd (hk hnone) (by omega)

/-- A call of the function that has invoked or posted the handle stays where it is until the
    function ends. -/
theorem calls_step (h : AwaitInv kind returnsResult s)
    {l : ContinuationLabel α β ε (AwaitThread T A)}
    {tasks : ContinuationRun α β ε (AwaitThread T A)} (hp : s.permits l)
    (hg : StartedInOrder s.tasks l) (hs : s.tasks.step kind l = some tasks) {k : ℕ}
    {u : AwaitThread T A} (hu : AwaitSystem.invokedAfter s.invoked l k u) :
    s.continuation k ≠ none ∧ (tasks.continuation k).pc (some u) = .bodyCall := by
  obtain ⟨hold, hcall⟩ := AwaitSystem.invokedAfter_eq_true hu
  obtain ⟨hne, hpc⟩ := h.calls k u hold
  refine ⟨hne, ?_⟩
  obtain hsame | ⟨l', hl', hfrom⟩ := continuation_cases hs hg k
  · rw [hsame]
    exact hpc
  by_cases hthread : l'.thread = some (some u)
  · obtain rfl | rfl | ⟨l₀, rfl, rfl, -⟩ := hfrom
    · cases hthread
    · cases hthread
    have hdrop := ofDropped_of_permits hp hne
    cases l₀ with
    | run v =>
      cases hthread
      have hnone := ((h.dropped k fun hnone => absurd hnone hne).func_eq_none
        ((reachable_continuationInv h.tasks).task k) hpc).2
      simp [TaskSystem.step, TaskSystem.runStep, TaskLabel.map, hpc, hnone] at hl'
    | body v =>
      cases hthread
      simp [TaskSystem.step, TaskLabel.map, hpc] at hl'
    | call v r =>
      cases hthread
      exact absurd rfl (hcall r)
    | _ => cases hdrop
  · obtain hpc' | hpc' := (step_frame hl').2.1 _ hthread <;> rw [hpc', hpc]
    rfl

/-- The function of a continuation task has invoked or posted its handle as before. -/
theorem untouched_step
    {l : ContinuationLabel α β ε (AwaitThread T A)}
    {tasks : ContinuationRun α β ε (AwaitThread T A)} (hp : s.permits l)
    (hg : StartedInOrder s.tasks l) (hs : s.tasks.step kind l = some tasks) {k : ℕ}
    (hk : s.continuation k ≠ none) :
    AwaitSystem.Untouched { s with
      tasks := tasks, invoked := AwaitSystem.invokedAfter s.invoked l } k ↔ s.Untouched k := by
  by_cases hl : ∃ u r, l = .continuation k (.call u r)
  · obtain ⟨u, r, rfl⟩ := hl
    have hcalled : s.invoked k u = true := by
      cases hc : s.continuation k with
      | none => exact absurd hc hk
      | some c => simpa [AwaitSystem.permits, hc] using hp
    refine iff_of_false (fun hu => ?_) fun hu => ?_
    · have hlog := hu.1
      simp only [ContinuationRun.step] at hs
      split at hs
      case isFalse => cases hs
      obtain ⟨c, hc, rfl⟩ := Option.map_eq_some_iff.mp hs
      simp only [ContinuationRun.setTask, Function.update_self] at hlog
      simp only [TaskLabel.map, TaskSystem.step, TaskSystem.callStep] at hc
      split at hc <;> cases hc <;> simp at hlog
    · rw [hu.2 u] at hcalled
      cases hcalled
  · have hne : ∀ u r, l ≠ .continuation k (.call u r) := fun u r heq => hl ⟨u, r, heq⟩
    have hlog : (tasks.continuation k).funcLog = (s.tasks.continuation k).funcLog := by
      obtain hsame | ⟨l', hl', hfrom⟩ := continuation_cases hs hg k
      · rw [hsame]
      · refine (step_added hl').2 fun t r heq => ?_
        obtain rfl | rfl | ⟨l₀, rfl, rfl, -⟩ := hfrom
        · cases heq
        · cases heq
        · cases l₀ <;> cases heq
          exact hne _ _ rfl
    simp only [AwaitSystem.Untouched, hlog, AwaitSystem.invokedAfter_of_ne hne]

theorem task_step (h : AwaitInv kind returnsResult s)
    {l : ContinuationLabel α β ε (AwaitThread T A)}
    {tasks : ContinuationRun α β ε (AwaitThread T A)} (hp : s.permits l)
    (hg : AwaitGuard s (.task l)) (hs : s.tasks.step kind l = some tasks) :
    AwaitInv kind returnsResult { s with
      tasks := tasks, invoked := AwaitSystem.invokedAfter s.invoked l } where
  tasks := h.tasks.step (h.started hp hg) hs
  place := h.place_step hp (h.started hp hg) hs
  dropped := fun k hk => h.dropped_step hp (h.started hp hg) hs fun hnone =>
    (h.added_step (h.started hp hg) hs).trans (hk hnone)
  waits := fun k c hc => by
    have hne : s.continuation k ≠ none := by rw [hc]; simp
    refine ⟨(h.waits k c hc).1.trans_le (h.added_step (h.started hp hg) hs), ?_⟩
    rw [untouched_step hp (h.started hp hg) hs hne]
    exact (h.waits k c hc).2
  owner := h.owner
  calls := fun _ _ hu => h.calls_step hp (h.started hp hg) hs hu
  posted := h.posted
  once := h.once
  logged := h.logged

end AwaitInv

end AsyncCpp.Tasks
