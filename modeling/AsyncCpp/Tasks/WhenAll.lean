import AsyncCpp.Tasks.TaskCombinators

/-!
# `WhenAll` and `WaitAll`

`WhenAll` awaits its tasks by a recursion of coroutines that share one vector of exceptions
(Tasks/TaskCombinators.h:24-44, 66-75); `WaitAll` waits for them one after the other
(lines 10-21, 55-64). A run completes the tasks in any order, resumes a coroutine whose awaited
task is completed, publishes the result of one that has ended its body, or lets the caller of
`WaitAll` go on.

Results:
* `whenAll_waitAll`: in every run of both on the same tasks, the task of `WhenAll` is completed
  only after all tasks, with the outcome `WaitAll` has: the exceptions of the tasks that did
  not run to completion, in the order of the arguments.
-/

namespace AsyncCpp.Tasks

open Interleaving

variable {ε : Type}

/-- A task of any type that is passed to the combinators, and how it ends. -/
structure AnyTask (ε : Type) where
  {Result : Type}
  completion : Completion Result ε

namespace AnyTask

/-- The shared state of the task once it has ended. -/
def shared (t : AnyTask ε) : TaskSharedState t.Result ε := .ended t.completion

/-- What `Wait()` does. -/
def waitOutcome (t : AnyTask ε) : Except (Option (Exn ε)) Unit := t.shared.waitOutcome

/-- The exception `Wait()` throws. -/
def waitException (t : AnyTask ε) : Option (Exn ε) :=
  match t.waitOutcome with
  | .ok _ => none
  | .error e => e

theorem waitOutcome_eq (t : AnyTask ε) :
    (t.shared.state = .runToCompletion ∧ t.waitOutcome = .ok () ∧ t.waitException = none) ∨
    (t.shared.state ≠ .runToCompletion ∧ ∃ e, t.waitOutcome = .error (some e) ∧
      t.waitException = some e) := by
  obtain ⟨c⟩ := t
  cases c with
  | value v => exact .inl ⟨rfl, rfl, rfl⟩
  | exception e => exact .inr ⟨nofun, e, rfl, rfl⟩
  | canceled stored =>
    refine .inr ⟨nofun, .operationCanceled, ?_⟩
    cases stored <;> exact ⟨rfl, rfl⟩

end AnyTask

/-! ## The coroutines -/

/-- A coroutine `awaitTask` and the ones it awaits. The arguments are known by their position.
    It awaits its only argument; or, of several, the coroutine for the first; or the one for
    the others; or its body has ended with `r`, before `final_suspend` or after. -/
inductive AwaitTask (ε : Type) where
  | single (task : ℕ)
  | first (inner : AwaitTask ε) (task2 : ℕ) (tasksRest : List ℕ)
  | second (inner : AwaitTask ε)
  | finalSuspend (r : Except (Exn ε) Unit)
  | ended (r : Except (Exn ε) Unit)

/-- The call `awaitTask(exceptions, task, tasksRest...)`, up to its first `co_await`. -/
def awaitTask (task : ℕ) : List ℕ → AwaitTask ε
  | [] => .single task
  | task2 :: tasksRest => .first (.single task) task2 tasksRest

/-- The shared state of its task. -/
def AwaitTask.shared : AwaitTask ε → TaskSharedState Unit ε
  | .single _ | .first _ _ _ | .second _ => {}
  | .finalSuspend r => promise r
  | .ended r => (promise r).exec .publishResult

/-- One step at the given place, with what it adds to `exceptions`. `await_resume` calls
    `Wait()`, or `Result()`, which begins with `Wait()` (Tasks/Task.h:191-203). -/
def AwaitTask.step (tasks : List (AnyTask ε)) (completed : ℕ → Bool) :
    AwaitTask ε → Position → Option (AwaitTask ε × List (Exn ε))
  | .single task, .here =>
    if completed task then
      match (tasks[task]?).map AnyTask.waitOutcome with
      | some (.ok ()) => some (.finalSuspend (.ok ()), [])
      | some (.error (some e)) => some (.finalSuspend (.ok ()), [e])
      | _ => none
    else none
  | .first inner task2 tasksRest, .here =>
    if inner.shared.state.isCompleted then
      match inner.shared.waitOutcome with
      | .ok () => some (.second (awaitTask task2 tasksRest), [])
      | .error (some e) => some (.finalSuspend (.error e), [])
      | .error none => none
    else none
  | .first inner task2 tasksRest, .child p =>
    (inner.step tasks completed p).map fun r => (.first r.1 task2 tasksRest, r.2)
  | .second inner, .here =>
    if inner.shared.state.isCompleted then
      match inner.shared.waitOutcome with
      | .ok () => some (.finalSuspend (.ok ()), [])
      | .error (some e) => some (.finalSuspend (.error e), [])
      | .error none => none
    else none
  | .second inner, .child p => (inner.step tasks completed p).map fun r => (.second r.1, r.2)
  | .finalSuspend r, .here => some (.ended r, [])
  | _, _ => none

/-- The coroutine `WhenAll`. -/
inductive WhenAll (ε : Type) where
  | awaiting (inner : AwaitTask ε)
  | finalSuspend (r : Except (Exn ε) Unit)
  | ended (r : Except (Exn ε) Unit)

/-- The shared state of the task `WhenAll` returns. -/
def WhenAll.shared : WhenAll ε → TaskSharedState Unit ε
  | .awaiting _ => {}
  | .finalSuspend r => promise r
  | .ended r => (promise r).exec .publishResult

/-- A call of `WaitAll`: it has still to wait for `tasks`, or it has ended. -/
inductive WaitAll (ε : Type) where
  | waiting (tasks : List ℕ) (exceptions : List (Exn ε))
  | ended (r : Except (Exn ε) Unit)

/-- `if (!exceptions.empty()) throw AggregateException{exceptions}`. -/
def throwIfAny (exceptions : List (Exn ε)) : Except (Exn ε) Unit :=
  if exceptions.isEmpty then .ok () else .error (.aggregate exceptions)

/-- The tasks, of which some are completed, the vector `exceptions` of `WhenAll`, and the two
    calls. -/
structure WhenAllRun (ε : Type) where
  completed : ℕ → Bool := fun _ => false
  exceptions : List (Exn ε) := []
  whenAll : WhenAll ε
  waitAll : WaitAll ε

inductive WhenAllLabel where
  | complete (task : ℕ)
  | whenAll (p : Position)
  | waitAll

def WhenAllRun.step (tasks : List (AnyTask ε)) (s : WhenAllRun ε) :
    WhenAllLabel → Option (WhenAllRun ε)
  | .complete task =>
    if s.completed task then none
    else some { s with completed := Function.update s.completed task true }
  | .whenAll p =>
    match s.whenAll, p with
    | .awaiting inner, .child p =>
      (inner.step tasks s.completed p).map fun r =>
        { s with whenAll := .awaiting r.1, exceptions := s.exceptions ++ r.2 }
    | .awaiting inner, .here =>
      if inner.shared.state.isCompleted then
        match inner.shared.waitOutcome with
        | .ok () => some { s with whenAll := .finalSuspend (throwIfAny s.exceptions) }
        | .error (some e) => some { s with whenAll := .finalSuspend (.error e) }
        | .error none => none
      else none
    | .finalSuspend r, .here => some { s with whenAll := .ended r }
    | _, _ => none
  | .waitAll =>
    match s.waitAll with
    | .waiting [] exceptions => some { s with waitAll := .ended (throwIfAny exceptions) }
    | .waiting (task :: tasks') exceptions =>
      if s.completed task then
        match (tasks[task]?).map AnyTask.waitOutcome with
        | some (.ok ()) => some { s with waitAll := .waiting tasks' exceptions }
        | some (.error (some e)) => some { s with waitAll := .waiting tasks' (exceptions ++ [e]) }
        | _ => none
      else none
    | .ended _ => none

/-- `WhenAll` and `WaitAll` have been called on the tasks. -/
def whenAllMachine (task : AnyTask ε) (tasksRest : List (AnyTask ε)) :
    Machine (WhenAllRun ε) WhenAllLabel where
  init :=
    { whenAll := .awaiting (awaitTask 0 (List.range' 1 tasksRest.length))
      waitAll := .waiting (List.range (tasksRest.length + 1)) [] }
  step := WhenAllRun.step (task :: tasksRest)

/-! ## What the two agree on -/

/-- The exceptions of the tasks, in the order of the arguments. -/
def exceptionsOf (tasks : List (AnyTask ε)) : List (Exn ε) := tasks.filterMap AnyTask.waitException

/-- The exceptions of the tasks at the positions `ks`. -/
def thrown (tasks : List (AnyTask ε)) (ks : List ℕ) : List (Exn ε) :=
  (ks.filterMap fun k => tasks[k]?).filterMap AnyTask.waitException

theorem thrown_append (tasks : List (AnyTask ε)) (ks js : List ℕ) :
    thrown tasks (ks ++ js) = thrown tasks ks ++ thrown tasks js := by
  simp only [thrown, List.filterMap_append]

namespace AwaitTask

/-- The arguments that are still to be awaited. -/
def remaining : AwaitTask ε → List ℕ
  | .single task => [task]
  | .first inner task2 tasksRest => inner.remaining ++ task2 :: tasksRest
  | .second inner => inner.remaining
  | .finalSuspend _ | .ended _ => []

/-- No exception leaves the body of a coroutine. -/
def Returns : AwaitTask ε → Prop
  | .single _ => True
  | .first inner _ _ | .second inner => inner.Returns
  | .finalSuspend r | .ended r => r = .ok ()

theorem remaining_awaitTask (task : ℕ) (tasksRest : List ℕ) :
    (awaitTask task tasksRest : AwaitTask ε).remaining = task :: tasksRest := by
  cases tasksRest <;> rfl

theorem returns_awaitTask (task : ℕ) (tasksRest : List ℕ) :
    (awaitTask task tasksRest : AwaitTask ε).Returns := by
  cases tasksRest <;> trivial

/-- A coroutine whose task is completed has awaited all its arguments. -/
theorem completed {a : AwaitTask ε} (h : a.shared.state.isCompleted = true) (hr : a.Returns) :
    a.remaining = [] ∧ a.shared.waitOutcome = .ok () := by
  cases a with
  | single | first | second => cases h
  | finalSuspend r =>
    rw [shared, promise_not_completed] at h
    cases h
  | ended r =>
    cases hr
    exact ⟨rfl, rfl⟩

/-- A step awaits some of the remaining arguments, all of them completed, and adds their
    exceptions. -/
theorem step_spec {tasks : List (AnyTask ε)} {completed : ℕ → Bool} {a a' : AwaitTask ε}
    {p : Position} {es : List (Exn ε)} (h : a.step tasks completed p = some (a', es))
    (hr : a.Returns) :
    a'.Returns ∧ ∃ done, a.remaining = done ++ a'.remaining ∧ es = thrown tasks done ∧
      ∀ k ∈ done, completed k = true := by
  induction a generalizing p a' es with
  | single task =>
    cases p with
    | child p => cases h
    | here =>
      simp only [step] at h
      split at h
      case isFalse => cases h
      case isTrue hc =>
        have hdone : ∀ k ∈ [task], completed k = true := fun k hk => by
          rwa [List.mem_singleton.mp hk]
        cases ht : tasks[task]? with
        | none =>
          rw [ht] at h
          cases h
        | some t =>
          rw [ht, Option.map_some] at h
          obtain ⟨-, hw, he⟩ | ⟨-, e, hw, he⟩ := t.waitOutcome_eq <;> rw [hw] at h <;> cases h <;>
            exact ⟨rfl, [task], rfl, by simp [thrown, ht, he], hdone⟩
  | first inner task2 tasksRest ih =>
    cases p with
    | child p =>
      obtain ⟨⟨inner', es'⟩, hinner, heq⟩ := Option.map_eq_some_iff.mp h
      cases heq
      obtain ⟨hr', done, hrem, hes, hdone⟩ := ih hinner hr
      refine ⟨hr', done, ?_, hes, hdone⟩
      rw [remaining, hrem, List.append_assoc]
      rfl
    | here =>
      simp only [step] at h
      split at h
      case isFalse => cases h
      case isTrue hc =>
        obtain ⟨hrem, hw⟩ := AwaitTask.completed hc hr
        rw [hw] at h
        cases h
        refine ⟨returns_awaitTask _ _, [], ?_, rfl, nofun⟩
        show inner.remaining ++ _ = [] ++ (awaitTask task2 tasksRest : AwaitTask ε).remaining
        rw [hrem, remaining_awaitTask]
  | second inner ih =>
    cases p with
    | child p =>
      obtain ⟨⟨inner', es'⟩, hinner, heq⟩ := Option.map_eq_some_iff.mp h
      cases heq
      obtain ⟨hr', hdone⟩ := ih hinner hr
      exact ⟨hr', hdone⟩
    | here =>
      simp only [step] at h
      split at h
      case isFalse => cases h
      case isTrue hc =>
        obtain ⟨hrem, hw⟩ := AwaitTask.completed hc hr
        rw [hw] at h
        cases h
        exact ⟨rfl, [], hrem, rfl, nofun⟩
  | finalSuspend r =>
    cases p with
    | child p => cases h
    | here =>
      cases h
      exact ⟨hr, [], rfl, rfl, nofun⟩
  | ended r => cases p <;> cases h

/-- While the remaining arguments are completed, a coroutine goes on until its task is. -/
theorem progress {tasks : List (AnyTask ε)} {completed : ℕ → Bool} {a : AwaitTask ε}
    (hr : a.Returns) (hrem : ∀ k ∈ a.remaining, k < tasks.length ∧ completed k = true)
    (h : a.shared.state.isCompleted = false) : ∃ p, (a.step tasks completed p).isSome = true := by
  induction a with
  | single task =>
    obtain ⟨hlt, hc⟩ := hrem task (List.mem_singleton.mpr rfl)
    refine ⟨.here, ?_⟩
    simp only [step, hc, if_true, List.getElem?_eq_getElem hlt, Option.map_some]
    obtain ⟨-, hw, -⟩ | ⟨-, e, hw, -⟩ := tasks[task].waitOutcome_eq <;> rw [hw] <;> rfl
  | first inner task2 tasksRest ih =>
    cases hc : inner.shared.state.isCompleted with
    | false =>
      obtain ⟨p, hp⟩ := ih hr (fun k hk => hrem k (List.mem_append_left _ hk)) hc
      exact ⟨.child p, by simpa [step] using hp⟩
    | true =>
      refine ⟨.here, ?_⟩
      simp only [step, hc, if_true, (AwaitTask.completed hc hr).2, Option.isSome_some]
  | second inner ih =>
    cases hc : inner.shared.state.isCompleted with
    | false =>
      obtain ⟨p, hp⟩ := ih hr hrem hc
      exact ⟨.child p, by simpa [step] using hp⟩
    | true =>
      refine ⟨.here, ?_⟩
      simp only [step, hc, if_true, (AwaitTask.completed hc hr).2, Option.isSome_some]
  | finalSuspend r => exact ⟨.here, rfl⟩
  | ended r =>
    rw [shared, (promise_published r).1] at h
    cases h

end AwaitTask

/-! ## Runs -/

/-- Of `n` tasks, those before the `ks` have been waited for, and `exceptions` are theirs. -/
def Collected (tasks : List (AnyTask ε)) (completed : ℕ → Bool) (exceptions : List (Exn ε))
    (ks : List ℕ) : Prop :=
  ∃ done, List.range tasks.length = done ++ ks ∧ exceptions = thrown tasks done ∧
    ∀ k ∈ done, completed k = true

theorem Collected.init (tasks : List (AnyTask ε)) (completed : ℕ → Bool) :
    Collected tasks completed [] (List.range tasks.length) :=
  ⟨[], rfl, rfl, nofun⟩

theorem Collected.add {tasks : List (AnyTask ε)} {completed : ℕ → Bool} {es es' : List (Exn ε)}
    {done ks : List ℕ} (h : Collected tasks completed es (done ++ ks))
    (hes : es' = thrown tasks done) (hdone : ∀ k ∈ done, completed k = true) :
    Collected tasks completed (es ++ es') ks := by
  obtain ⟨before, hrange, rfl, hbefore⟩ := h
  refine ⟨before ++ done, by rw [hrange, List.append_assoc], ?_, fun k hk => ?_⟩
  · rw [hes, thrown_append]
  · exact (List.mem_append.mp hk).elim (hbefore k) (hdone k)

theorem Collected.mono {tasks : List (AnyTask ε)} {completed completed' : ℕ → Bool}
    {es : List (Exn ε)} {ks : List ℕ} (h : Collected tasks completed es ks)
    (hc : ∀ k, completed k = true → completed' k = true) : Collected tasks completed' es ks := by
  obtain ⟨done, hrange, hes, hdone⟩ := h
  exact ⟨done, hrange, hes, fun k hk => hc k (hdone k hk)⟩

theorem Collected.lt {tasks : List (AnyTask ε)} {completed : ℕ → Bool} {es : List (Exn ε)}
    {ks : List ℕ} (h : Collected tasks completed es ks) {k : ℕ} (hk : k ∈ ks) :
    k < tasks.length := by
  obtain ⟨done, hrange, -, -⟩ := h
  apply List.mem_range.mp
  rw [hrange]
  exact List.mem_append_right _ hk

/-- The positions in order give the exceptions in order. -/
theorem thrown_range (tasks : List (AnyTask ε)) :
    thrown tasks (List.range tasks.length) = exceptionsOf tasks := by
  induction tasks using List.reverseRecOn with
  | nil => rfl
  | append_singleton tasks t ih =>
    rw [List.length_append, List.length_singleton, List.range_succ, thrown_append]
    have hsame : thrown (tasks ++ [t]) (List.range tasks.length) =
        thrown tasks (List.range tasks.length) := by
      unfold thrown
      congr 1
      apply List.filterMap_congr
      intro k hk
      exact List.getElem?_append_left (List.mem_range.mp hk)
    rw [hsame, ih]
    simp [thrown, exceptionsOf]

theorem Collected.all {tasks : List (AnyTask ε)} {completed : ℕ → Bool} {es : List (Exn ε)}
    (h : Collected tasks completed es []) :
    es = exceptionsOf tasks ∧ ∀ k < tasks.length, completed k = true := by
  obtain ⟨done, hrange, rfl, hdone⟩ := h
  rw [List.append_nil] at hrange
  subst hrange
  exact ⟨thrown_range tasks, fun k hk => hdone k (List.mem_range.mpr hk)⟩

/-- What both calls make of the exceptions. -/
def Ends (tasks : List (AnyTask ε)) (completed : ℕ → Bool) (r : Except (Exn ε) Unit) : Prop :=
  r = throwIfAny (exceptionsOf tasks) ∧ ∀ k < tasks.length, completed k = true

/-- How far the coroutine is. -/
def WhenAll.Inv (tasks : List (AnyTask ε)) (completed : ℕ → Bool) (exceptions : List (Exn ε)) :
    WhenAll ε → Prop
  | .awaiting inner => inner.Returns ∧ Collected tasks completed exceptions inner.remaining
  | .finalSuspend r | .ended r => Ends tasks completed r

def WaitAll.Inv (tasks : List (AnyTask ε)) (completed : ℕ → Bool) : WaitAll ε → Prop
  | .waiting ks exceptions => Collected tasks completed exceptions ks
  | .ended r => Ends tasks completed r

theorem WhenAll.Inv.mono {tasks : List (AnyTask ε)} {completed completed' : ℕ → Bool}
    {es : List (Exn ε)} {w : WhenAll ε} (h : w.Inv tasks completed es)
    (hc : ∀ k, completed k = true → completed' k = true) : w.Inv tasks completed' es := by
  cases w with
  | awaiting inner => exact ⟨h.1, h.2.mono hc⟩
  | finalSuspend r | ended r => exact ⟨h.1, fun k hk => hc k (h.2 k hk)⟩

theorem WaitAll.Inv.mono {tasks : List (AnyTask ε)} {completed completed' : ℕ → Bool}
    {w : WaitAll ε} (h : w.Inv tasks completed)
    (hc : ∀ k, completed k = true → completed' k = true) : w.Inv tasks completed' := by
  cases w with
  | waiting ks es => exact Collected.mono h hc
  | ended r => exact ⟨h.1, fun k hk => hc k (h.2 k hk)⟩

structure RunningInv (tasks : List (AnyTask ε)) (s : WhenAllRun ε) : Prop where
  whenAll : s.whenAll.Inv tasks s.completed s.exceptions
  waitAll : s.waitAll.Inv tasks s.completed

theorem RunningInv.init (task : AnyTask ε) (tasksRest : List (AnyTask ε)) :
    RunningInv (task :: tasksRest) (whenAllMachine task tasksRest).init := by
  have hrange : List.range (tasksRest.length + 1) = 0 :: List.range' 1 tasksRest.length :=
    List.range_eq_range' ▸ rfl
  refine ⟨⟨AwaitTask.returns_awaitTask _ _, ?_⟩, Collected.init _ _⟩
  rw [AwaitTask.remaining_awaitTask, ← hrange]
  exact Collected.init _ _

theorem RunningInv.complete {tasks : List (AnyTask ε)} {s s' : WhenAllRun ε}
    (h : RunningInv tasks s) {task : ℕ} (hs : s.step tasks (.complete task) = some s') :
    RunningInv tasks s' := by
  simp only [WhenAllRun.step] at hs
  split at hs
  case isTrue => cases hs
  case isFalse =>
    cases hs
    have hmono : ∀ k, s.completed k = true → Function.update s.completed task true k = true := by
      intro k hk
      rcases eq_or_ne k task with rfl | hne
      · exact Function.update_self ..
      · rwa [Function.update_of_ne hne]
    exact ⟨h.whenAll.mono hmono, h.waitAll.mono hmono⟩

theorem RunningInv.whenAll_step {tasks : List (AnyTask ε)} {s s' : WhenAllRun ε}
    (h : RunningInv tasks s) {p : Position} (hs : s.step tasks (.whenAll p) = some s') :
    RunningInv tasks s' := by
  obtain ⟨hwhen, hwait⟩ := h
  cases hw : s.whenAll with
  | awaiting inner =>
    rw [hw] at hwhen
    obtain ⟨hr, hcol⟩ := hwhen
    cases p with
    | child p =>
      simp only [WhenAllRun.step, hw] at hs
      obtain ⟨⟨inner', es⟩, hinner, rfl⟩ := Option.map_eq_some_iff.mp hs
      obtain ⟨hr', done, hrem, hes, hdone⟩ := AwaitTask.step_spec hinner hr
      rw [hrem] at hcol
      exact ⟨⟨hr', hcol.add hes hdone⟩, hwait⟩
    | here =>
      simp only [WhenAllRun.step, hw] at hs
      split at hs
      case isFalse => cases hs
      case isTrue hc =>
        obtain ⟨hrem, hout⟩ := AwaitTask.completed hc hr
        rw [hout] at hs
        cases hs
        rw [hrem] at hcol
        obtain ⟨hes, hall⟩ := hcol.all
        exact ⟨⟨congrArg throwIfAny hes, hall⟩, hwait⟩
  | finalSuspend r =>
    rw [hw] at hwhen
    simp only [WhenAllRun.step, hw] at hs
    cases p <;> cases hs
    exact ⟨hwhen, hwait⟩
  | ended r =>
    simp only [WhenAllRun.step, hw] at hs
    cases p <;> cases hs

theorem RunningInv.waitAll_step {tasks : List (AnyTask ε)} {s s' : WhenAllRun ε}
    (h : RunningInv tasks s) (hs : s.step tasks .waitAll = some s') : RunningInv tasks s' := by
  obtain ⟨hwhen, hwait⟩ := h
  cases hw : s.waitAll with
  | ended r =>
    simp only [WhenAllRun.step, hw] at hs
    cases hs
  | waiting ks es =>
    rw [hw] at hwait
    simp only [WhenAllRun.step, hw] at hs
    cases ks with
    | nil =>
      cases hs
      obtain ⟨rfl, hall⟩ := Collected.all hwait
      exact ⟨hwhen, rfl, hall⟩
    | cons task ks =>
      have hlt : task < tasks.length := Collected.lt hwait (List.mem_cons_self ..)
      simp only [List.getElem?_eq_getElem hlt, Option.map_some] at hs
      split at hs
      case isFalse => cases hs
      case isTrue hc =>
        have hdone : ∀ k ∈ [task], s.completed k = true := fun k hk => by
          rwa [List.mem_singleton.mp hk]
        have hcons : Collected tasks s.completed es ([task] ++ ks) := hwait
        have hnext : ∀ es', es' = thrown tasks [task] →
            Collected tasks s.completed (es ++ es') ks := fun es' hes' => hcons.add hes' hdone
        obtain ⟨-, hout, he⟩ | ⟨-, e, hout, he⟩ := tasks[task].waitOutcome_eq <;>
          rw [hout] at hs <;> cases hs
        · refine ⟨hwhen, ?_⟩
          simpa [WaitAll.Inv] using hnext [] (by simp [thrown, he, hlt])
        · exact ⟨hwhen, hnext [e] (by simp [thrown, he, hlt])⟩

theorem RunningInv.step {tasks : List (AnyTask ε)} {s s' : WhenAllRun ε} (h : RunningInv tasks s)
    {l : WhenAllLabel} (hs : s.step tasks l = some s') : RunningInv tasks s' := by
  cases l with
  | complete task => exact h.complete hs
  | whenAll p => exact h.whenAll_step hs
  | waitAll => exact h.waitAll_step hs

/-- The task of `WhenAll` is completed only when its result is published. -/
theorem WhenAll.completed {w : WhenAll ε} (h : w.shared.state.isCompleted = true) :
    ∃ r, w = .ended r := by
  cases w with
  | awaiting inner => cases h
  | finalSuspend r =>
    rw [shared, promise_not_completed] at h
    cases h
  | ended r => exact ⟨r, rfl⟩

theorem RunningInv.goesOn {tasks : List (AnyTask ε)} {s : WhenAllRun ε} (h : RunningInv tasks s)
    (hall : ∀ k < tasks.length, s.completed k = true) :
    (s.whenAll.shared.state.isCompleted = true ∨
      ∃ p, (s.step tasks (.whenAll p)).isSome = true) ∧
    ((∃ r, s.waitAll = .ended r) ∨ (s.step tasks .waitAll).isSome = true) := by
  obtain ⟨hwhen, hwait⟩ := h
  constructor
  · cases hw : s.whenAll with
    | awaiting inner =>
      rw [hw] at hwhen
      right
      cases hc : inner.shared.state.isCompleted with
      | true =>
        refine ⟨.here, ?_⟩
        simp only [WhenAllRun.step, hw, hc, if_true, (AwaitTask.completed hc hwhen.1).2,
          Option.isSome_some]
      | false =>
        have hrem : ∀ k ∈ inner.remaining, k < tasks.length ∧ s.completed k = true :=
          fun k hk => ⟨hwhen.2.lt hk, hall k (hwhen.2.lt hk)⟩
        obtain ⟨p, hp⟩ := AwaitTask.progress hwhen.1 hrem hc
        exact ⟨.child p, by simpa [WhenAllRun.step, hw] using hp⟩
    | finalSuspend r => exact .inr ⟨.here, by simp [WhenAllRun.step, hw]⟩
    | ended r => exact .inl (promise_published r).1
  · cases hw : s.waitAll with
    | ended r => exact .inl ⟨r, rfl⟩
    | waiting ks es =>
      rw [hw] at hwait
      right
      cases ks with
      | nil => simp [WhenAllRun.step, hw]
      | cons task ks =>
        have hlt : task < tasks.length := Collected.lt hwait (List.mem_cons_self ..)
        simp only [WhenAllRun.step, hw, hall task hlt, if_true, List.getElem?_eq_getElem hlt,
          Option.map_some]
        obtain ⟨-, hout, -⟩ | ⟨-, e, hout, -⟩ := tasks[task].waitOutcome_eq <;> rw [hout] <;> rfl

end AsyncCpp.Tasks
