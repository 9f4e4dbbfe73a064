import Mathlib.Data.Fintype.Prod
import AsyncCpp.Lib.AwaitPrograms
import AsyncCpp.Tasks.AwaiterRuns
import AsyncCpp.Tasks.TaskCombinators

/-!
# Coroutines that await each other

A coroutine that returns a `Task` runs from its call on (`initial_suspend` is `suspend_never`), and
its promise completes the task: `return_value` or `unhandled_exception` stores what the body ended
with, and `final_suspend` publishes it (Tasks/TaskCompletionSource.h:114-237). The program is any
number of coroutines, each of which awaits tasks of the others; what a coroutine does next
depends on what its `co_await` expressions return or throw. The schedulers, the synchronization
contexts and other threads, which may wait for the tasks and add continuations to them, take part
as in `TaskAwaiter`.

A coroutine evaluates at most `n` `co_await` expressions; `n` is arbitrary. The calls its promise
makes on the task have the thread name `none`.

Results:
* `sameShared_step`, `await_cases`: but for its promise, nobody changes the outcome of the task of a
  coroutine.
* `reachable_coroutineInv`: the tasks, their `co_await` expressions and the bodies fit together.
-/

namespace AsyncCpp.Tasks

open Interleaving

variable {ε α : Type} {ι T C : Type*} {β : ℕ → Type*} {n : ℕ} {returnsResult : ι → Bool}

/-! ## The promise -/

/-- The call of the promise where the body ends: `return_value` or `unhandled_exception`. -/
def endCall : Except (Exn ε) α → SetCall α ε
  | .ok v => .setResult v false
  | .error e => if e.isOperationCanceled then .setCanceled false else .setException (some e) false

theorem promise_eq (o : Except (Exn ε) α) :
    promise o = ({} : TaskSharedState α ε).exec (endCall o) := by
  cases o <;> rfl

/-- What a `co_await` of the task of a coroutine whose body ended with `o` yields. -/
def observe (returnsResult : ι → Bool) (i : ι) (o : Except (Exn ε) α) :
    Except (Option (Exn ε)) (Option α) :=
  awaitOutcome (returnsResult i) ((promise o).exec .publishResult)

/-- The body of a coroutine. -/
abbrev CoroutineProgram (ι : Type*) (α ε : Type) : ℕ → Type _ :=
  AwaitProgram ι (Except (Exn ε) α) (Except (Option (Exn ε)) (Option α))

/-- Where the body of a coroutine is. It has still `m` of its `n` awaits, and is about to go on or
    inside the `co_await` that has number `m`; or it has ended with `o`, before `final_suspend` or
    after. -/
inductive CoroutineBody (ι : Type*) (α ε : Type) (n : ℕ) where
  | running (m : ℕ) (hm : m ≤ n) (p : CoroutineProgram ι α ε m)
  | awaiting (m : ℕ) (hm : m < n) (i : ι)
    (next : Except (Option (Exn ε)) (Option α) → CoroutineProgram ι α ε m)
  | returned (o : Except (Exn ε) α)
  | published (o : Except (Exn ε) α)

/-- The tasks with their `co_await` expressions, and the bodies. -/
structure CoroutineSystem (ι : Type*) (α : Type) (β : ℕ → Type*) (ε : Type) (T C : Type*)
    (n : ℕ) where
  tasks : ι → AwaitSystem α β ε (Option T) (ι × Fin n) C := fun _ => {}
  body : ι → CoroutineBody ι α ε n

/-- Who moves: a task and whoever is inside its code, or a coroutine. -/
inductive CoroutineLabel (ι : Type*) (α : Type) (β : ℕ → Type*) (ε : Type) (T C : Type*)
    (n : ℕ) where
  | task (i : ι) (l : AwaitLabel α β ε (Option T) (ι × Fin n) C)
  | await (j : ι) (settings : GlobalTaskSettings) (continueOnCapturedContext : Bool)
  | goOn (j : ι)
  | finish (j : ι)
  | publish (j : ι)

/-- What is not left to the coroutines: all but the beginning of a `co_await`, the setters, and new
    calls under the name of the promise. -/
def AwaitLabel.ofOthers {A : Type*} : AwaitLabel α β ε (Option T) A C → Bool
  | .awaitReady .. | .task (.antecedent (.set _ _)) => false
  | .task (.antecedent (.run _)) => true
  | .task (.antecedent l) => match l.thread with
    | some (.thread none) => false
    | _ => true
  | _ => true

theorem AwaitLabel.antecedent_ofOthers {A : Type*} {l : TaskLabel α ε (AwaitThread (Option T) A)}
    (hl : (AwaitLabel.task (C := C) (β := β) (.antecedent l)).ofOthers) :
    (∀ u c, l ≠ .set u c) ∧ (l.thread = some (.thread none) → l = .run (.thread none)) := by
  cases l with
  | set t c => cases hl
  | cancel => exact ⟨nofun, nofun⟩
  | addContinuation t | start t | body t | wait t result | spuriousWake t | call t r | run t =>
    refine ⟨nofun, fun hu => ?_⟩
    cases hu
    first
      | rfl
      | cases hl

namespace CoroutineSystem

variable [DecidableEq ι] [DecidableEq T]

/-- A step of task `i`. -/
def stepTask (returnsResult : ι → Bool) (s : CoroutineSystem ι α β ε T C n) (i : ι)
    (l : AwaitLabel α β ε (Option T) (ι × Fin n) C) : Option (CoroutineSystem ι α β ε T C n) :=
  ((s.tasks i).step .promise (returnsResult i) l).map fun t =>
    { s with tasks := Function.update s.tasks i t }

def goto (s : CoroutineSystem ι α β ε T C n) (j : ι) (b : CoroutineBody ι α ε n) :
    CoroutineSystem ι α β ε T C n :=
  { s with body := Function.update s.body j b }

/-- The call `c` of the promise of coroutine `j`, which then is at `b`. -/
def call (returnsResult : ι → Bool) (s : CoroutineSystem ι α β ε T C n) (j : ι) (c : SetCall α ε)
    (b : CoroutineBody ι α ε n) : Option (CoroutineSystem ι α β ε T C n) :=
  (s.stepTask returnsResult j (.task (.antecedent (.set (.thread none) c)))).map fun s' =>
    s'.goto j b

def step (returnsResult : ι → Bool) (s : CoroutineSystem ι α β ε T C n) :
    CoroutineLabel ι α β ε T C n → Option (CoroutineSystem ι α β ε T C n)
  | .task i l => if l.ofOthers then s.stepTask returnsResult i l else none
  | .await j settings continueOnCapturedContext =>
    match s.body j with
    | .running (m + 1) hm (.await i next) =>
      (s.stepTask returnsResult i (.awaitReady (j, ⟨m, hm⟩) settings
        continueOnCapturedContext)).map fun s' => s'.goto j (.awaiting m hm i next)
    | _ => none
  | .goOn j =>
    match s.body j with
    | .awaiting m hm i next =>
      match (s.tasks i).pc (j, ⟨m, hm⟩) with
      | .finished outcome => some (s.goto j (.running m hm.le (next outcome)))
      | _ => none
    | _ => none
  | .finish j =>
    match s.body j with
    | .running _ _ (.done o) => s.call returnsResult j (endCall o) (.returned o)
    | _ => none
  | .publish j =>
    match s.body j with
    | .returned o => s.call returnsResult j .publishResult (.published o)
    | _ => none

/-- What a step can be. -/
inductive CoroutineStep (returnsResult : ι → Bool) (s : CoroutineSystem ι α β ε T C n) :
    CoroutineLabel ι α β ε T C n → CoroutineSystem ι α β ε T C n → Prop
  | task {i l t} (hl : l.ofOthers)
      (ht : (s.tasks i).step .promise (returnsResult i) l = some t) :
    CoroutineStep returnsResult s (.task i l) { s with tasks := Function.update s.tasks i t }
  | await {j settings b m hm i next t} (hj : s.body j = .running (m + 1) hm (.await i next))
      (ht : (s.tasks i).step .promise (returnsResult i) (.awaitReady (j, ⟨m, hm⟩) settings b) =
        some t) :
    CoroutineStep returnsResult s (.await j settings b)
      (goto { s with tasks := Function.update s.tasks i t } j (.awaiting m hm i next))
  | goOn {j m hm i next outcome} (hj : s.body j = .awaiting m hm i next)
      (hpc : (s.tasks i).pc (j, ⟨m, hm⟩) = .finished outcome) :
    CoroutineStep returnsResult s (.goOn j) (s.goto j (.running m hm.le (next outcome)))
  | finish {j m hm o t} (hj : s.body j = .running m hm (.done o))
      (ht : (s.tasks j).step .promise (returnsResult j)
        (.task (.antecedent (.set (.thread none) (endCall o)))) = some t) :
    CoroutineStep returnsResult s (.finish j)
      (goto { s with tasks := Function.update s.tasks j t } j (.returned o))
  | publish {j o t} (hj : s.body j = .returned o)
      (ht : (s.tasks j).step .promise (returnsResult j)
        (.task (.antecedent (.set (.thread none) .publishResult))) = some t) :
    CoroutineStep returnsResult s (.publish j)
      (goto { s with tasks := Function.update s.tasks j t } j (.published o))

theorem step_cases {s s' : CoroutineSystem ι α β ε T C n} {l : CoroutineLabel ι α β ε T C n}
    (hs : s.step returnsResult l = some s') : CoroutineStep returnsResult s l s' := by
  unfold step at hs
  split at hs
  case h_1 i l =>
    split at hs
    case isFalse => cases hs
    case isTrue hl =>
      obtain ⟨t, ht, rfl⟩ := Option.map_eq_some_iff.mp hs
      exact .task hl ht
  case h_2 j settings b =>
    split at hs
    case h_2 => cases hs
    case h_1 m hm i next hj =>
      obtain ⟨s₁, hs₁, rfl⟩ := Option.map_eq_some_iff.mp hs
      obtain ⟨t, ht, rfl⟩ := Option.map_eq_some_iff.mp hs₁
      exact .await hj ht
  case h_3 j =>
    split at hs
    case h_2 => cases hs
    case h_1 m hm i next hj =>
      split at hs <;> cases hs
      case h_1 outcome hpc => exact .goOn hj hpc
  case h_4 j =>
    split at hs
    case h_2 => cases hs
    case h_1 m hm o hj =>
      obtain ⟨s₁, hs₁, rfl⟩ := Option.map_eq_some_iff.mp hs
      obtain ⟨t, ht, rfl⟩ := Option.map_eq_some_iff.mp hs₁
      exact .finish hj ht
  case h_5 j =>
    split at hs
    case h_2 => cases hs
    case h_1 o hj =>
      obtain ⟨s₁, hs₁, rfl⟩ := Option.map_eq_some_iff.mp hs
      obtain ⟨t, ht, rfl⟩ := Option.map_eq_some_iff.mp hs₁
      exact .publish hj ht

end CoroutineSystem

/-- The machine of coroutines with the given bodies, all of them called. -/
def coroutineMachine [DecidableEq ι] (returnsResult : ι → Bool)
    (programs : ι → CoroutineProgram ι α ε n) (β : ℕ → Type*) (T C : Type*) [DecidableEq T] :
    Machine (CoroutineSystem ι α β ε T C n) (CoroutineLabel ι α β ε T C n) where
  init := { body := fun j => .running n le_rfl (programs j) }
  step := CoroutineSystem.step returnsResult

/-- The condition: what `AwaitGuard` asks of the others. -/
def CoroutineGuard [Fintype T] [Fintype ι] [DecidableEq ι] [DecidableEq T]
    (s : CoroutineSystem ι α β ε T C n) : CoroutineLabel ι α β ε T C n → Prop
  | .task i l => AwaitGuard (s.tasks i) l
  | _ => True

/-! ## The task of a coroutine -/

/-- The two shared states differ in the list of the continuations only. -/
def SameShared (s s' : TaskSharedState α ε) : Prop :=
  SameOutcome s s' ∧ s'.preparedNextState = s.preparedNextState

theorem SameShared.trans {s s' s'' : TaskSharedState α ε} (h : SameShared s s')
    (h' : SameShared s' s'') : SameShared s s'' :=
  ⟨⟨h'.1.1.trans h.1.1, h'.1.2.1.trans h.1.2.1, h'.1.2.2.trans h.1.2.2⟩, h'.2.trans h.2⟩

theorem SameShared.awaitOutcome {s s' : TaskSharedState α ε} (h : SameShared s s') (r : Bool) :
    awaitOutcome r s' = awaitOutcome r s := by
  unfold Tasks.awaitOutcome
  rw [h.1.waitOutcome, h.1.resultOutcome]

section Antecedent

variable {U : Type*} [Fintype U] [DecidableEq U] {s s' : TaskSystem α ε U} {l : TaskLabel α ε U}

omit [Fintype U] in
/-- Nobody starts the task of a coroutine. -/
theorem not_startSection (h : (taskMachine .promise α ε U).Reachable StartGuard s) (u : U) :
    ¬ StartSection s u := by
  refine h.invariant (I := fun s => ∀ u, ¬ StartSection s u) (fun u hu => ?_)
    (fun s l s' hi _ hs u hu => ?_) u
  · obtain hu | hu := hu <;> cases hu
  · obtain ⟨t, rfl, hk, -⟩ | ⟨-, hsec⟩ := step_startSection hs
    · cases hk
    · exact hi u (hsec u hu).1

/-- The others leave the task of a coroutine alone but for its continuations. -/
theorem sameShared_step (h : (taskMachine .promise α ε U).Reachable StartGuard s)
    (hs : TaskSystem.step .promise s l = some s') (hl : ∀ t c, l ≠ .set t c)
    (hst : unfinished s.task.state = 0) : SameShared s.task s'.task := by
  have hi := reachable_inv h
  have hcarry := (hi.no_carrier hst).2
  cases l with
  | run t =>
    refine ⟨?_, ?_⟩
    · have hsec := not_startSection h t
      obtain he | ⟨hc, -⟩ | ⟨-, hsec', -⟩ := hi.run_effect (fun hpc => absurd (.inl hpc) hsec) hs
      · exact he
      · rw [hcarry t] at hc
        cases hc
      · exact absurd hsec' hsec
    · cases runStep_cases hs <;> rfl
  | call t r =>
    have hc := hcarry t
    rw [(hi.call_effect hs).1] at hc
    cases hc
  | set t c => exact absurd rfl (hl t c)
  | cancel => cases hs; exact ⟨⟨rfl, rfl, rfl⟩, rfl⟩
  | addContinuation t | wait t result | start t | body t | spuriousWake t =>
    simp only [TaskSystem.step] at hs
    split at hs <;> cases hs
    exact ⟨⟨rfl, rfl, rfl⟩, rfl⟩

end Antecedent

section Await

variable {A : Type*} [Fintype T] [Fintype A] [DecidableEq T] [DecidableEq A] {kind : TaskKind}
  {r : Bool} {s s' : AwaitSystem α β ε T A C} {l : AwaitLabel α β ε T A C}

/-- A step is one of the task, or it is a step of a `co_await` or of a thread that invokes a
    continuation, or it leaves the task alone. -/
theorem await_cases (h : AwaitInv kind r s) (hg : AwaitGuard s l) (hs : s.step kind r l = some s') :
    s'.tasks.antecedent = s.tasks.antecedent ∨
    ∃ l', TaskSystem.step kind s.tasks.antecedent l' = some s'.tasks.antecedent ∧
      (l = .task (.antecedent l') ∨ (∀ t c, l' ≠ .set t c) ∧
        ∀ t, l'.thread = some (.thread t) → l' = .run (.thread t)) := by
  cases AwaitSystem.step_cases hs with
  | @task l _ hp htasks =>
    obtain hsame | ⟨l', hl', -, rfl | ⟨t, rfl, -⟩⟩ :=
      antecedent_cases (reachable_continuationInv h.tasks) htasks (h.started hp hg)
    · exact .inl hsame
    · exact .inr ⟨l', hl', .inl rfl⟩
    · refine .inr ⟨.run t, hl', .inr ⟨by simp, fun u hu => ?_⟩⟩
      cases hu
      rfl
  | awaitReady | awaitSuspend | runPosted => exact .inl rfl
  | continueWith _ htasks | awaitResume _ htasks | resume _ htasks =>
    exact .inr ⟨_, (AwaitInv.call_cases htasks).1, .inr ⟨by simp, by simp [TaskLabel.thread]⟩⟩
  | invoke =>
    left
    unfold AwaitSystem.runContinuation
    split <;> rfl

omit [Fintype T] [Fintype A] [DecidableEq T] in
theorem update_before {c a : A} {p : AwaitPc α ε C} (hp : p ≠ .before) (hc : s.pc c ≠ .before) :
    Function.update s.pc c p a = .before ↔ s.pc a = .before := by
  by_cases hac : a = c
  · subst hac
    rw [Function.update_self]
    exact iff_of_false hp hc
  · rw [Function.update_of_ne hac]

/-- Only `await_ready` begins a `co_await`. -/
theorem before_step (h : AwaitInv kind r s) (hs : s.step kind r l = some s') {a : A}
    (hl : ∀ settings b, l ≠ .awaitReady a settings b) : s'.pc a = .before ↔ s.pc a = .before := by
  cases AwaitSystem.step_cases hs with
  | task => rfl
  | @awaitReady c settings b completed hpc hcompleted =>
    have hac : a ≠ c := by
      rintro rfl
      exact hl settings b rfl
    simp only [AwaitSystem.goto, Function.update_of_ne hac]
  | @awaitSuspend c settings b completed hpc hcompleted =>
    exact update_before (by cases completed <;> simp) (by simp [hpc])
  | continueWith hpc | awaitResume hpc => exact update_before (by simp) (by simp [hpc])
  | resume hpc =>
    refine update_before ?_ (by simp [hpc])
    unfold AwaitSystem.afterResume
    split
    · split <;> simp
    · simp
  | runPosted hpc =>
    refine update_before ?_ (by simp [hpc])
    rw [hpc]
    simp
  | @invoke k u c hc hu hf hnot =>
    have hpc := (h.handOver (p := .resumed) hc hu hnot (.inl rfl)).1
    unfold AwaitSystem.runContinuation
    split <;> refine update_before ?_ (by simp [hpc]) <;> rw [hpc] <;> simp

omit [Fintype T] [Fintype A] in
/-- `await_ready` begins the `co_await`. -/
theorem ne_before_of_awaitReady {a : A} {settings : GlobalTaskSettings} {b : Bool}
    (hs : s.step kind r (.awaitReady a settings b) = some s') : s'.pc a ≠ .before := by
  cases AwaitSystem.step_cases hs with
  | @awaitReady _ _ _ completed =>
    simp only [AwaitSystem.goto, Function.update_self]
    cases completed <;> simp

end Await

/-! ## The calls of the promise -/

theorem SameShared.exec {s s' : TaskSharedState α ε} (h : SameShared s s') (c : SetCall α ε) :
    SameShared (s.exec c) (s'.exec c) := by
  obtain ⟨⟨h1, h2, h3⟩, h4⟩ := h
  unfold TaskSharedState.exec
  cases c with
  | setException e completeTask =>
    cases e <;> cases completeTask <;> by_cases hst : s.state = .created <;>
      simp [SetCall.apply, SameShared, SameOutcome, h1, h2, h3, h4, hst]
  | trySetException e =>
    cases e <;> by_cases hst : s.state = .created <;>
      simp [SetCall.apply, SameShared, SameOutcome, h1, h2, h3, h4, hst]
  | setCanceled completeTask | setResult v completeTask =>
    cases completeTask <;> by_cases hst : s.state = .created <;>
      simp [SetCall.apply, SameShared, SameOutcome, h1, h2, h3, h4, hst]
  | trySetCanceled | trySetResult v | publishResult =>
    by_cases hst : s.state = .created <;>
      simp [SetCall.apply, SameShared, SameOutcome, h1, h2, h3, h4, hst]

/-- A setter, and where its caller is afterwards. -/
theorem set_step [DecidableEq T] {kind : TaskKind} {s s' : TaskSystem α ε T} {t : T}
    {c : SetCall α ε} (hs : TaskSystem.step kind s (.set t c) = some s') :
    s'.task = s.task.exec c ∧
      ((∀ task, c.apply s.task ≠ .ok (some (task, true))) → s'.pc t = .idle) := by
  simp only [TaskSystem.step] at hs
  split at hs
  case isFalse => cases hs
  rename_i hen
  unfold TaskSharedState.exec
  split at hs <;> cases hs <;> rename_i happ
  · exact ⟨by rw [happ], fun _ => hen.1⟩
  · exact ⟨by rw [happ], fun _ => hen.1⟩
  · rename_i task completed
    rw [happ]
    refine ⟨rfl, fun hne => ?_⟩
    cases completed with
    | true => exact absurd rfl (hne task)
    | false => exact Function.update_self ..

/-- The end of the body completes nothing yet. -/
theorem endCall_apply (o : Except (Exn ε) α) (s task : TaskSharedState α ε) :
    (endCall o).apply s ≠ .ok (some (task, true)) := by
  cases o with
  | ok v => by_cases hst : s.state = .created <;> simp [endCall, SetCall.apply, hst]
  | error e =>
    by_cases he : e.isOperationCanceled <;> by_cases hst : s.state = .created <;>
      simp [endCall, SetCall.apply, he, hst]

/-! ## The invariant -/

namespace CoroutineBody

/-- The shared state of the task, but for its continuations. -/
def shared : CoroutineBody ι α ε n → TaskSharedState α ε
  | running .. | awaiting .. => {}
  | returned o => promise o
  | published o => (promise o).exec .publishResult

/-- The `co_await` expressions numbered below have not been evaluated. -/
def unused : CoroutineBody ι α ε n → ℕ
  | running m _ _ | awaiting m _ _ _ => m
  | _ => 0

theorem unfinished_shared (b : CoroutineBody ι α ε n) : unfinished b.shared.state = 0 := by
  cases b with
  | running | awaiting => rfl
  | returned o =>
    cases o with
    | ok v => rfl
    | error e =>
      show unfinished (promise (.error e)).state = 0
      unfold promise
      dsimp only
      split <;> rfl
  | published o =>
    have hc := (promise_published o).1
    cases hst : ((promise o).exec .publishResult).state <;> simp_all [shared, unfinished,
      TaskState.isCompleted]

end CoroutineBody

/-- The task of a coroutine whose body stands for the shared state `x`: until it is completed, the
    promise is outside of its setters. -/
structure TaskFits {A : Type*} [Fintype T] [Fintype A] [DecidableEq T] [DecidableEq A] (r : Bool)
    (x : TaskSharedState α ε) (t : AwaitSystem α β ε (Option T) A C) : Prop where
  awaits : AwaitInv .promise r t
  promiseIdle : x.state.isCompleted = false → t.tasks.antecedent.pc (.thread none) = .idle
  shared : SameShared x t.tasks.antecedent.task

namespace TaskFits

variable {A : Type*} [Fintype T] [Fintype A] [DecidableEq T] [DecidableEq A] {r : Bool}
  {x : TaskSharedState α ε} {t t' : AwaitSystem α β ε (Option T) A C}

theorem init : TaskFits r {} ({} : AwaitSystem α β ε (Option T) A C) where
  awaits := .init
  promiseIdle := fun _ => rfl
  shared := ⟨⟨rfl, rfl, rfl⟩, rfl⟩

/-- A step that is no call of the promise. -/
theorem step (h : TaskFits r x t) (hx : unfinished x.state = 0)
    {l : AwaitLabel α β ε (Option T) A C} (hg : AwaitGuard t l)
    (hl : ∀ l', l = .task (.antecedent l') → (∀ u c, l' ≠ .set u c) ∧
      (l'.thread = some (.thread none) → l' = .run (.thread none)))
    (hs : t.step .promise r l = some t') : TaskFits r x t' := by
  have hi := (reachable_continuationInv h.awaits.tasks).antecedent
  have hawaits := h.awaits.step hg hs
  obtain hsame | ⟨l', hl', hfrom⟩ := await_cases h.awaits hg hs
  · exact ⟨hawaits, by rw [hsame]; exact h.promiseIdle, by rw [hsame]; exact h.shared⟩
  have hothers : (∀ u c, l' ≠ .set u c) ∧
      (l'.thread = some (.thread none) → l' = .run (.thread none)) := by
    obtain rfl | ⟨hset, hthread⟩ := hfrom
    · exact hl l' rfl
    · exact ⟨hset, hthread none⟩
  refine ⟨hawaits, fun hc => ?_, h.shared.trans (sameShared_step hi hl' hothers.1 ?_)⟩
  · have hidle := h.promiseIdle hc
    by_cases hthread : l'.thread = some (.thread none)
    · rw [hothers.2 hthread] at hl'
      simp [TaskSystem.step, TaskSystem.runStep, hidle] at hl'
    · have hpc := (step_frame hl').2.1 _ hthread
      rw [hidle] at hpc
      exact hpc.elim id id
  · rw [h.shared.1.1]
    exact hx

/-- A call of the promise. -/
theorem call (h : TaskFits r x t) {c : SetCall α ε}
    (hs : t.step .promise r (.task (.antecedent (.set (.thread none) c))) = some t')
    (hidle : (x.exec c).state.isCompleted = false →
      ∀ task task', c.apply task ≠ .ok (some (task', true))) : TaskFits r (x.exec c) t' := by
  have hg : AwaitGuard t (.task (.antecedent (.set (.thread none) c))) := fun _ hu => by cases hu
  have hawaits := h.awaits.step hg hs
  cases AwaitSystem.step_cases hs with
  | task _ htasks =>
    obtain ⟨htask, hpc⟩ := set_step (AwaitInv.call_cases htasks).1
    refine ⟨hawaits, fun hc => hpc (hidle hc _), ?_⟩
    rw [htask]
    exact h.shared.exec c

end TaskFits

structure CoroutineInv [Fintype ι] [Fintype T] [DecidableEq ι] [DecidableEq T]
    (returnsResult : ι → Bool) (s : CoroutineSystem ι α β ε T C n) : Prop where
  fits : ∀ i, TaskFits (returnsResult i) (s.body i).shared (s.tasks i)
  unused : ∀ i j (q : Fin n), (q : ℕ) < (s.body j).unused → (s.tasks i).pc (j, q) = .before
  begun : ∀ j m hm i next, s.body j = .awaiting m hm i next →
    (s.tasks i).pc (j, ⟨m, hm⟩) ≠ .before

namespace CoroutineInv

variable [Fintype ι] [Fintype T] [DecidableEq ι] [DecidableEq T]
  {s s' : CoroutineSystem ι α β ε T C n} {programs : ι → CoroutineProgram ι α ε n}

theorem init : CoroutineInv returnsResult
    (coroutineMachine returnsResult programs β T C).init where
  fits := fun _ => .init
  unused := fun _ _ _ _ => rfl
  begun := nofun

/-- A step of task `i` begins one `co_await` at most. -/
theorem before_update (h : CoroutineInv returnsResult s) {i : ι}
    {l : AwaitLabel α β ε (Option T) (ι × Fin n) C}
    {t : AwaitSystem α β ε (Option T) (ι × Fin n) C}
    (ht : (s.tasks i).step .promise (returnsResult i) l = some t) (k : ι) (a : ι × Fin n)
    (hne : k = i → ∀ settings b, l ≠ .awaitReady a settings b) :
    (Function.update s.tasks i t k).pc a = .before ↔ (s.tasks k).pc a = .before := by
  by_cases hk : k = i
  · subst hk
    rw [Function.update_self]
    exact before_step (h.fits k).awaits ht (hne rfl)
  · rw [Function.update_of_ne hk]

/-- The tasks, where `i` moves and coroutine `j` stands for the shared state `x` of it. -/
theorem fits_update (h : CoroutineInv returnsResult s) {i : ι} {b : ι → CoroutineBody ι α ε n}
    {t : AwaitSystem α β ε (Option T) (ι × Fin n) C}
    (ht : TaskFits (returnsResult i) (b i).shared t)
    (hb : ∀ k, k ≠ i → (b k).shared = (s.body k).shared) (k : ι) :
    TaskFits (returnsResult k) (b k).shared (Function.update s.tasks i t k) := by
  by_cases hk : k = i
  · subst hk
    rw [Function.update_self]
    exact ht
  · rw [Function.update_of_ne hk, hb k hk]
    exact h.fits k

theorem task_step (h : CoroutineInv returnsResult s) {i : ι}
    {l : AwaitLabel α β ε (Option T) (ι × Fin n) C} (hl : l.ofOthers)
    (hg : AwaitGuard (s.tasks i) l) {t : AwaitSystem α β ε (Option T) (ι × Fin n) C}
    (ht : (s.tasks i).step .promise (returnsResult i) l = some t) :
    CoroutineInv returnsResult { s with tasks := Function.update s.tasks i t } := by
  have hothers : ∀ l', l = .task (.antecedent l') → (∀ u c, l' ≠ .set u c) ∧
      (l'.thread = some (.thread none) → l' = .run (.thread none)) := by
    rintro l' rfl
    exact AwaitLabel.antecedent_ofOthers hl
  have hready : ∀ a settings b, l ≠ .awaitReady a settings b := by
    rintro a settings b rfl
    cases hl
  have hbefore := fun k a => h.before_update ht k a fun _ => hready a
  refine ⟨h.fits_update ((h.fits i).step (s.body i).unfinished_shared hg hothers ht)
    fun _ _ => rfl, fun k j q hq => ?_, fun j m hm k next hj => ?_⟩
  · exact (hbefore k _).mpr (h.unused k j q hq)
  · exact mt (hbefore k _).mp (h.begun j m hm k next hj)

/-- A coroutine evaluates a `co_await`. -/
theorem await_step (h : CoroutineInv returnsResult s) {i j : ι} {m : ℕ} {hm : m < n}
    {next : Except (Option (Exn ε)) (Option α) → CoroutineProgram ι α ε m}
    (hj : s.body j = .running (m + 1) hm (.await i next)) {settings : GlobalTaskSettings}
    {b : Bool} {t : AwaitSystem α β ε (Option T) (ι × Fin n) C}
    (ht : (s.tasks i).step .promise (returnsResult i) (.awaitReady (j, ⟨m, hm⟩) settings b) =
      some t) :
    CoroutineInv returnsResult
      (.goto { s with tasks := Function.update s.tasks i t } j (.awaiting m hm i next)) := by
  have hbody : ∀ k, (Function.update s.body j (.awaiting m hm i next) k).shared =
      (s.body k).shared := by
    intro k
    by_cases hk : k = j
    · subst hk
      rw [Function.update_self, hj]
      rfl
    · rw [Function.update_of_ne hk]
  refine ⟨h.fits_update ?_ fun k _ => hbody k, fun k j' q hq => ?_,
    fun j' m' hm' k next' hj' => ?_⟩
  · simp only [CoroutineSystem.goto, hbody i]
    exact (h.fits i).step (l := .awaitReady (j, ⟨m, hm⟩) settings b)
      (s.body i).unfinished_shared trivial nofun ht
  · have hold : (q : ℕ) < (s.body j').unused ∧ (j', q) ≠ (j, ⟨m, hm⟩) := by
      simp only [CoroutineSystem.goto] at hq
      by_cases hjj : j' = j
      · subst hjj
        rw [Function.update_self] at hq
        rw [hj]
        refine ⟨Nat.lt_succ_of_lt hq, fun heq => ?_⟩
        cases heq
        exact lt_irrefl _ hq
      · rw [Function.update_of_ne hjj] at hq
        exact ⟨hq, fun heq => hjj (congrArg Prod.fst heq)⟩
    refine (h.before_update ht k _ fun _ settings' b' heq => hold.2 ?_).mpr
      (h.unused k j' q hold.1)
    cases heq
    rfl
  · simp only [CoroutineSystem.goto] at hj'
    by_cases hjj : j' = j
    · subst hjj
      rw [Function.update_self] at hj'
      cases hj'
      simp only [CoroutineSystem.goto, Function.update_self]
      exact ne_before_of_awaitReady ht
    · rw [Function.update_of_ne hjj] at hj'
      refine mt (h.before_update ht k _ fun _ settings' b' heq => hjj ?_).mp
        (h.begun j' m' hm' k next' hj')
      cases heq
      rfl

theorem goOn_step (h : CoroutineInv returnsResult s) {i j : ι} {m : ℕ} {hm : m < n}
    {next : Except (Option (Exn ε)) (Option α) → CoroutineProgram ι α ε m}
    (hj : s.body j = .awaiting m hm i next) (outcome : Except (Option (Exn ε)) (Option α)) :
    CoroutineInv returnsResult (s.goto j (.running m hm.le (next outcome))) := by
  refine ⟨fun k => ?_, fun k j' q hq => ?_, fun j' m' hm' k next' hj' => ?_⟩
  · have hfits := h.fits k
    by_cases hk : k = j
    · subst hk
      rw [hj] at hfits
      simp only [CoroutineSystem.goto, Function.update_self]
      exact hfits
    · simp only [CoroutineSystem.goto, Function.update_of_ne hk]
      exact hfits
  · refine h.unused k j' q ?_
    simp only [CoroutineSystem.goto] at hq
    by_cases hjj : j' = j
    · subst hjj
      rw [Function.update_self] at hq
      rw [hj]
      exact hq
    · rwa [Function.update_of_ne hjj] at hq
  · simp only [CoroutineSystem.goto] at hj'
    by_cases hjj : j' = j
    · subst hjj
      rw [Function.update_self] at hj'
      cases hj'
    · rw [Function.update_of_ne hjj] at hj'
      exact h.begun j' m' hm' k next' hj'

/-- The promise of coroutine `j` makes a call. -/
theorem call_step (h : CoroutineInv returnsResult s) {j : ι} {c : SetCall α ε}
    {b : CoroutineBody ι α ε n} {o : Except (Exn ε) α} (hb : b = .returned o ∨ b = .published o)
    (hshared : b.shared = (s.body j).shared.exec c)
    (hidle : b.shared.state.isCompleted = false →
      ∀ task task', c.apply task ≠ .ok (some (task', true)))
    {t : AwaitSystem α β ε (Option T) (ι × Fin n) C}
    (ht : (s.tasks j).step .promise (returnsResult j)
      (.task (.antecedent (.set (.thread none) c))) = some t) :
    CoroutineInv returnsResult (.goto { s with tasks := Function.update s.tasks j t } j b) := by
  have hbefore := fun k a => h.before_update ht k a fun _ => nofun
  refine ⟨h.fits_update ?_ fun k hk => ?_, fun k j' q hq => ?_,
    fun j' m' hm' k next' hj' => ?_⟩
  · simp only [CoroutineSystem.goto, Function.update_self, hshared]
    exact (h.fits j).call ht (by rw [← hshared]; exact hidle)
  · simp only [CoroutineSystem.goto, Function.update_of_ne hk]
  · refine (hbefore k _).mpr (h.unused k j' q ?_)
    simp only [CoroutineSystem.goto] at hq
    by_cases hjj : j' = j
    · subst hjj
      rw [Function.update_self] at hq
      obtain rfl | rfl := hb <;> cases hq
    · rwa [Function.update_of_ne hjj] at hq
  · simp only [CoroutineSystem.goto] at hj'
    refine mt (hbefore k _).mp (h.begun j' m' hm' k next' ?_)
    by_cases hjj : j' = j
    · subst hjj
      rw [Function.update_self] at hj'
      obtain rfl | rfl := hb <;> cases hj'
    · rwa [Function.update_of_ne hjj] at hj'

theorem step (h : CoroutineInv returnsResult s) {l : CoroutineLabel ι α β ε T C n}
    (hg : CoroutineGuard s l) (hs : s.step returnsResult l = some s') :
    CoroutineInv returnsResult s' := by
  cases CoroutineSystem.step_cases hs with
  | task hl ht => exact h.task_step hl hg ht
  | await hj ht => exact h.await_step hj ht
  | goOn hj => exact h.goOn_step hj _
  | @finish j m hm o t hj ht =>
    refine h.call_step (.inl rfl) ?_ (fun _ => endCall_apply o) ht
    rw [hj]
    exact promise_eq o
  | @publish j o t hj ht =>
    refine h.call_step (.inr rfl) (by rw [hj]; rfl) (fun hc => ?_) ht
    rw [CoroutineBody.shared, (promise_published o).1] at hc
    cases hc

end CoroutineInv

theorem reachable_coroutineInv [Fintype ι] [Fintype T] [DecidableEq ι] [DecidableEq T]
    {programs : ι → CoroutineProgram ι α ε n} {s : CoroutineSystem ι α β ε T C n}
    (h : (coroutineMachine returnsResult programs β T C).Reachable CoroutineGuard s) :
    CoroutineInv returnsResult s :=
  h.invariant .init fun _ _ _ hi hg hs => hi.step hg hs

end AsyncCpp.Tasks
