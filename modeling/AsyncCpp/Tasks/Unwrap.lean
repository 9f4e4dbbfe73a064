import AsyncCpp.Tasks.TaskSharedState

/-!
# Flattening a task of a task

The library flattens a `Task<Task<T>>` in three places: `Task::Unwrap` (and `Fjoin`,
which calls it) with two nested continuations, `Fbind` with the identity and
`TaskFactory::Run` with a coroutine. All three run on one outer and one inner task
here, in every order of the two completions, the three calls and the steps of what
they scheduled.

The outer continuation of `Unwrap` calls `self.Result()`. Where the outer task is
faulted or canceled that call throws, the exception ends up in the task `ContinueWith`
returned, which `Unwrap` dropped, and nobody completes the proxy.

Results:
* `unwrap_mirrors_iff`: where everything has finished, the proxy mirrors both levels,
  and yields what the other two flattenings yield, if and only if the outer task ran
  to completion.
* `flatten_mirrors`: the tasks of the two coroutines always yield what the flattened
  task should yield.
-/

namespace AsyncCpp.Tasks

open Interleaving

variable {α ε : Type*}

/-! ## The promise of a coroutine -/

namespace TaskSharedState

/-- `return_value`, then `final_suspend` (Tasks/TaskCompletionSource.h:141-165). -/
def coReturn (s : TaskSharedState α ε) (v : α) : TaskSharedState α ε :=
  (s.exec (.setResult v false)).exec .publishResult

/-- `unhandled_exception`, then `final_suspend` (Tasks/TaskCompletionSource.h:152-181). -/
def coThrow (s : TaskSharedState α ε) (e : Exn ε) : TaskSharedState α ε :=
  (s.exec (if e.isOperationCanceled then .setCanceled false else .setException (some e) false)).exec
    .publishResult

end TaskSharedState

/-! ## The three flattenings -/

/-- Who flattens. -/
inductive Flattening where
  | unwrap
  | fbind
  | taskFactoryRun
  deriving DecidableEq, Repr

/-- Where a flattening is: not called, its continuation added to a task and not invoked,
    the continuation invoked (its task started, or the coroutine to be resumed), done. -/
inductive Stage where
  | idle
  | outerAdded
  | outerInvoked
  | innerAdded
  | innerInvoked
  | done
  deriving DecidableEq, Repr

/-- The outer task, whose value is a handle of the inner task, the inner task, the task
    each flattening returns, and where each flattening is. -/
structure FlattenSystem (α ε : Type*) where
  outer : TaskSharedState Unit ε := {}
  inner : TaskSharedState α ε := {}
  task : Flattening → TaskSharedState α ε := fun _ => {}
  stage : Flattening → Stage := fun _ => .idle

/-- The innermost continuation of `Unwrap` (Tasks/Task.h:227-276): it copies the inner
    task's outcome to the proxy. -/
def copyToProxy (innerTask proxyTask : TaskSharedState α ε) : TaskSharedState α ε :=
  match innerTask.state with
  | .runToCompletion =>
    match innerTask.resultOutcome with
    | .ok (some v) => proxyTask.exec (.trySetResult v)
    | _ => proxyTask
  | .faulted => proxyTask.exec (.trySetException innerTask.exceptionPtr)
  | .canceled => proxyTask.exec .trySetCanceled
  | .created | .scheduled | .running => proxyTask

/-- A coroutine goes on with the result of the inner task: `await_resume` throws what
    `Result()` throws, or the coroutine returns the value. -/
def awaitInner (innerTask promise : TaskSharedState α ε) : TaskSharedState α ε :=
  match innerTask.resultOutcome with
  | .ok (some v) => promise.coReturn v
  | .error (some e) => promise.coThrow e
  | _ => promise

inductive FlattenLabel (α ε : Type*) where
  /-- The flattening is called: its first continuation is added. -/
  | call (f : Flattening)
  | completeOuter (o : Completion Unit ε)
  | completeInner (o : Completion α ε)
  /-- The task the continuation of `f` was added to invokes it. -/
  | invoke (f : Flattening)
  /-- The invoked continuation of `f` runs. -/
  | resume (f : Flattening)

namespace FlattenSystem

/-- `AddContinuation`: where the task is completed the continuation is invoked at once. -/
def addedTo {β : Type*} (t : TaskSharedState β ε) (added invoked : Stage) : Stage :=
  if t.state.isCompleted then invoked else added

@[simp] def goto (s : FlattenSystem α ε) (f : Flattening) (p : Stage) : FlattenSystem α ε :=
  { s with stage := Function.update s.stage f p }

/-- Flattening `f` is done and its task is `t`. -/
@[simp] def finish (s : FlattenSystem α ε) (f : Flattening) (t : TaskSharedState α ε) :
    FlattenSystem α ε :=
  { s.goto f .done with task := Function.update s.task f t }

/-- The first continuation of `f` runs. `Unwrap` calls `self.Result()` and, where that does
    not throw, `ContinueWith` of the inner task (Tasks/Task.h:217-224); a coroutine is
    resumed and, where `Result()` does not throw, awaits the inner task
    (Tasks/TaskCombinators.h:167-170, Tasks/TaskFactory.h:20-28). -/
def resumeOuter (s : FlattenSystem α ε) (f : Flattening) : FlattenSystem α ε :=
  match s.outer.resultOutcome, f with
  | .ok (some ()), _ => s.goto f (addedTo s.inner .innerAdded .innerInvoked)
  | _, .unwrap => s.goto f .done
  | .error (some e), _ => s.finish f ((s.task f).coThrow e)
  | _, _ => s.goto f .done

/-- The second continuation of `f` runs. -/
def resumeInner (s : FlattenSystem α ε) (f : Flattening) : FlattenSystem α ε :=
  match f with
  | .unwrap => s.finish f (copyToProxy s.inner (s.task f))
  | .fbind | .taskFactoryRun => s.finish f (awaitInner s.inner (s.task f))

def step (s : FlattenSystem α ε) : FlattenLabel α ε → Option (FlattenSystem α ε)
  | .call f =>
    if s.stage f = .idle then some (s.goto f (addedTo s.outer .outerAdded .outerInvoked)) else none
  | .completeOuter o =>
    if s.outer.state.isCompleted then none else some { s with outer := .ended o }
  | .completeInner o =>
    if s.inner.state.isCompleted then none else some { s with inner := .ended o }
  | .invoke f =>
    match s.stage f with
    | .outerAdded => if s.outer.state.isCompleted then some (s.goto f .outerInvoked) else none
    | .innerAdded => if s.inner.state.isCompleted then some (s.goto f .innerInvoked) else none
    | _ => none
  | .resume f =>
    match s.stage f with
    | .outerInvoked => some (s.resumeOuter f)
    | .innerInvoked => some (s.resumeInner f)
    | _ => none

/-- The outer task, the inner task if there is one, and everything the three flattenings
    scheduled have finished. -/
def Finished (s : FlattenSystem α ε) : Prop :=
  s.outer.state.isCompleted ∧ (s.outer.state = .runToCompletion → s.inner.state.isCompleted) ∧
    ∀ f, s.stage f = .done

end FlattenSystem

def flattenMachine (α ε : Type*) : Machine (FlattenSystem α ε) (FlattenLabel α ε) where
  init := {}
  step := FlattenSystem.step

/-- What a flattened task should be: faulted with the outer exception, canceled with the
    outer task, and otherwise in the inner task's state with its value or exception. -/
def Mirrors (outer : TaskSharedState Unit ε) (inner t : TaskSharedState α ε) : Prop :=
  match outer.state with
  | .faulted => t.state = .faulted ∧ t.exceptionPtr = outer.exceptionPtr
  | .canceled => t.state = .canceled
  | _ => t.state = inner.state ∧ t.state.isCompleted ∧
      (t.state = .runToCompletion → t.func = inner.func) ∧
      (t.state = .faulted → t.exceptionPtr = inner.exceptionPtr)

/-! ## The outcome of the whole run -/

/-- The task flattening `f` returns, as a function of the two ended tasks. -/
def flattenedBy (f : Flattening) (outer : TaskSharedState Unit ε) (inner : TaskSharedState α ε) :
    TaskSharedState α ε :=
  match outer.resultOutcome, f with
  | .ok _, .unwrap => copyToProxy inner {}
  | .ok _, _ => awaitInner inner {}
  | .error (some e), .fbind | .error (some e), .taskFactoryRun => ({} : TaskSharedState α ε).coThrow e
  | _, _ => {}

/-- The task is as it was created, or it has ended. -/
def NewOrEnded (t : TaskSharedState α ε) : Prop := t = {} ∨ ∃ o, t = .ended o

/-- What the stage of a flattening says. -/
def StageOk (s : FlattenSystem α ε) (f : Flattening) : Stage → Prop
  | .idle | .outerAdded => s.task f = {}
  | .outerInvoked => s.task f = {} ∧ s.outer.state.isCompleted
  | .innerAdded => s.task f = {} ∧ s.outer.state = .runToCompletion
  | .innerInvoked =>
    s.task f = {} ∧ s.outer.state = .runToCompletion ∧ s.inner.state.isCompleted
  | .done => s.task f = flattenedBy f s.outer s.inner ∧ s.outer.state.isCompleted ∧
      (s.outer.state = .runToCompletion → s.inner.state.isCompleted)

structure FlattenInv (s : FlattenSystem α ε) : Prop where
  outer : NewOrEnded s.outer
  inner : NewOrEnded s.inner
  stage : ∀ f, StageOk s f (s.stage f)

theorem NewOrEnded.ended_of_completed {t : TaskSharedState α ε} (h : NewOrEnded t)
    (hc : t.state.isCompleted) : ∃ o, t = .ended o := by
  rcases h with rfl | h
  · cases hc
  · exact h

/-- A task that ended and does not hold a value yields an exception. -/
theorem ended_resultOutcome (o : Completion α ε) :
    ((TaskSharedState.ended o).state = .runToCompletion ∧
      ∃ v, (TaskSharedState.ended o).resultOutcome = .ok (some v)) ∨
    ((TaskSharedState.ended o).state ≠ .runToCompletion ∧
      ∃ e, (TaskSharedState.ended o).resultOutcome = .error (some e)) := by
  cases o with
  | value v => exact .inl ⟨rfl, v, rfl⟩
  | exception e => exact .inr ⟨nofun, e, rfl⟩
  | canceled stored => cases stored <;> exact .inr ⟨nofun, .operationCanceled, rfl⟩

/-- The inner task does not matter where the outer one did not run to completion. -/
theorem flattenedBy_congr {outer : TaskSharedState Unit ε} (o : Completion Unit ε)
    (ho : outer = .ended o) (h : outer.state ≠ .runToCompletion) (f : Flattening)
    (i i' : TaskSharedState α ε) : flattenedBy f outer i = flattenedBy f outer i' := by
  subst ho
  obtain ⟨hr, -⟩ | ⟨-, e, he⟩ := ended_resultOutcome o
  · exact absurd hr h
  · cases f <;> simp [flattenedBy, he]

namespace FlattenInv

variable {s s' : FlattenSystem α ε} {f : Flattening}

/-- One flattening moves to a stage that fits, the two tasks stay as they are. -/
theorem stage_step (h : FlattenInv s) {p : Stage} (ho : s'.outer = s.outer)
    (hi : s'.inner = s.inner) (hst : s'.stage = Function.update s.stage f p)
    (htask : ∀ g, g ≠ f → s'.task g = s.task g) (hp : StageOk s' f p) : FlattenInv s' where
  outer := ho ▸ h.outer
  inner := hi ▸ h.inner
  stage := by
    intro g
    rw [hst]
    by_cases hg : g = f
    · subst hg
      rwa [Function.update_self]
    · rw [Function.update_of_ne hg]
      have := h.stage g
      cases hs : s.stage g <;> simp_all [StageOk]

theorem resumeOuter_step (h : FlattenInv s) (hf : s.stage f = .outerInvoked) :
    FlattenInv (s.resumeOuter f) := by
  have hstage := h.stage f
  rw [hf] at hstage
  obtain ⟨htask, hc⟩ := hstage
  obtain ⟨o, ho⟩ := h.outer.ended_of_completed hc
  have hcases := ended_resultOutcome o
  rw [← ho] at hcases
  rcases hcases with ⟨hrtc, v, hv⟩ | ⟨hne, e, he⟩
  · cases v
    simp only [FlattenSystem.resumeOuter, hv]
    refine h.stage_step rfl rfl rfl (fun _ _ => rfl) ?_
    simp only [FlattenSystem.addedTo]
    split
    · exact ⟨htask, hrtc, ‹_›⟩
    · exact ⟨htask, hrtc⟩
  · simp only [FlattenSystem.resumeOuter, he]
    cases f with
    | unwrap =>
      refine h.stage_step rfl rfl rfl (fun _ _ => rfl) ⟨?_, hc, fun hr => absurd hr hne⟩
      simpa [flattenedBy, he] using htask
    | fbind | taskFactoryRun =>
      refine h.stage_step rfl rfl rfl (fun g hg => Function.update_of_ne hg _ _)
        ⟨?_, hc, fun hr => absurd hr hne⟩
      simp [flattenedBy, he, htask]

theorem resumeInner_step (h : FlattenInv s) (hf : s.stage f = .innerInvoked) :
    FlattenInv (s.resumeInner f) := by
  have hstage := h.stage f
  rw [hf] at hstage
  obtain ⟨htask, hrtc, hic⟩ := hstage
  have hc : s.outer.state.isCompleted := by rw [hrtc]; rfl
  obtain ⟨o, ho⟩ := h.outer.ended_of_completed hc
  have hcases := ended_resultOutcome o
  rw [← ho] at hcases
  obtain ⟨-, v, hv⟩ := hcases.resolve_right fun hne => hne.1 hrtc
  cases f with
  | unwrap | fbind | taskFactoryRun =>
    refine h.stage_step rfl rfl rfl (fun g hg => Function.update_of_ne hg _ _)
      ⟨?_, hc, fun _ => hic⟩
    simp [FlattenSystem.resumeInner, flattenedBy, hv, htask]

theorem step (h : FlattenInv s) {a : FlattenLabel α ε} (hs : s.step a = some s') :
    FlattenInv s' := by
  cases a with
  | call f =>
    simp only [FlattenSystem.step] at hs
    split at hs <;> cases hs
    rename_i hidle
    have hstage := h.stage f
    rw [hidle] at hstage
    refine h.stage_step rfl rfl rfl (fun _ _ => rfl) ?_
    simp only [FlattenSystem.addedTo]
    split
    · exact ⟨hstage, ‹_›⟩
    · exact hstage
  | completeOuter o =>
    simp only [FlattenSystem.step] at hs
    split at hs <;> cases hs
    rename_i hnc
    refine ⟨.inr ⟨o, rfl⟩, h.inner, fun f => ?_⟩
    have hstage := h.stage f
    -- the outer task had not ended, so no continuation had been invoked
    cases hst : s.stage f <;> simp only [hst, StageOk] at hstage ⊢
    case idle | outerAdded => exact hstage
    case outerInvoked => exact absurd hstage.2 hnc
    case innerAdded => rw [hstage.2] at hnc; exact absurd rfl hnc
    case innerInvoked => rw [hstage.2.1] at hnc; exact absurd rfl hnc
    case done => exact absurd hstage.2.1 hnc
  | completeInner o =>
    simp only [FlattenSystem.step] at hs
    split at hs <;> cases hs
    rename_i hnc
    refine ⟨h.outer, .inr ⟨o, rfl⟩, fun f => ?_⟩
    have hstage := h.stage f
    cases hst : s.stage f <;> simp only [hst, StageOk] at hstage ⊢
    case idle | outerAdded | outerInvoked | innerAdded => exact hstage
    case innerInvoked => exact absurd hstage.2.2 hnc
    case done =>
      obtain ⟨htask, hc, hic⟩ := hstage
      have hne : s.outer.state ≠ .runToCompletion := fun hr => hnc (hic hr)
      obtain ⟨o', ho'⟩ := h.outer.ended_of_completed hc
      exact ⟨htask.trans (flattenedBy_congr o' ho' hne f _ _), hc, fun hr => absurd hr hne⟩
  | invoke f =>
    simp only [FlattenSystem.step] at hs
    have hstage := h.stage f
    split at hs
    · rename_i hst
      rw [hst] at hstage
      split at hs <;> cases hs
      exact h.stage_step rfl rfl rfl (fun _ _ => rfl) ⟨hstage, ‹_›⟩
    · rename_i hst
      rw [hst] at hstage
      split at hs <;> cases hs
      exact h.stage_step rfl rfl rfl (fun _ _ => rfl) ⟨hstage.1, hstage.2, ‹_›⟩
    · cases hs
  | resume f =>
    simp only [FlattenSystem.step] at hs
    split at hs
    · cases hs
      exact h.resumeOuter_step ‹_›
    · cases hs
      exact h.resumeInner_step ‹_›
    · cases hs

end FlattenInv

theorem reachable_flattenInv {s : FlattenSystem α ε}
    (h : (flattenMachine α ε).Reachable Machine.Any s) : FlattenInv s := by
  refine h.invariant ?_ fun s a s' hi _ hs => hi.step hs
  exact ⟨.inl rfl, .inl rfl, fun _ => rfl⟩

/-- Where everything has finished, every task is a function of how the two tasks ended. -/
theorem finished_task {s : FlattenSystem α ε}
    (h : (flattenMachine α ε).Reachable Machine.Any s) (hf : s.Finished) (f : Flattening) :
    s.task f = flattenedBy f s.outer s.inner := by
  have hstage := (reachable_flattenInv h).stage f
  rw [hf.2.2 f] at hstage
  exact hstage.1

/-- A coroutine that throws ends and yields the exception, a cancellation included. -/
theorem coThrow_created (e : Exn ε) :
    (({} : TaskSharedState α ε).coThrow e).state.isCompleted ∧
      (({} : TaskSharedState α ε).coThrow e).resultOutcome = .error (some e) := by
  cases e <;> exact ⟨rfl, rfl⟩

/-- A coroutine that awaits a task that ended yields what the task yields. -/
theorem awaitInner_ended (o : Completion α ε) :
    (awaitInner (.ended o) ({} : TaskSharedState α ε)).state.isCompleted ∧
      (awaitInner (.ended o) ({} : TaskSharedState α ε)).resultOutcome =
        (TaskSharedState.ended o).resultOutcome := by
  cases o with
  | value v => exact ⟨rfl, rfl⟩
  | exception e => exact coThrow_created e
  | canceled stored => cases stored <;> exact ⟨rfl, rfl⟩

/-- The proxy of `Unwrap` ends as the inner task did, except that `TrySetCanceled` stores no
    exception. -/
theorem copyToProxy_ended (o : Completion α ε) :
    copyToProxy (.ended o) ({} : TaskSharedState α ε) =
      .ended (match o with | .canceled _ => .canceled false | o => o) := by
  cases o with
  | value v => rfl
  | exception e => rfl
  | canceled stored => rfl

/-- Hence it has the state, the value and the exception of the inner task, and yields the
    same. -/
theorem copyToProxy_mirrors (o : Completion α ε) :
    let proxy := copyToProxy (.ended o) ({} : TaskSharedState α ε)
    (proxy.state = (TaskSharedState.ended o).state ∧ proxy.state.isCompleted ∧
      (proxy.state = .runToCompletion → proxy.func = (TaskSharedState.ended o).func) ∧
      (proxy.state = .faulted → proxy.exceptionPtr = (TaskSharedState.ended o).exceptionPtr)) ∧
    proxy.resultOutcome = (TaskSharedState.ended o).resultOutcome := by
  rw [copyToProxy_ended]
  cases o with
  | value v => exact ⟨⟨rfl, rfl, fun _ => rfl, fun _ => rfl⟩, rfl⟩
  | exception e => exact ⟨⟨rfl, rfl, fun _ => rfl, fun _ => rfl⟩, rfl⟩
  | canceled stored => cases stored <;> exact ⟨⟨rfl, rfl, nofun, nofun⟩, rfl⟩

/-- The two coroutines end, and yield what the outer task throws or else what the inner
    task yields. -/
theorem flatten_mirrors {s : FlattenSystem α ε}
    (h : (flattenMachine α ε).Reachable Machine.Any s) (hf : s.Finished) {f : Flattening}
    (hne : f ≠ .unwrap) :
    (s.task f).state.isCompleted ∧
      (s.task f).resultOutcome = s.outer.resultOutcome.bind fun _ => s.inner.resultOutcome := by
  rw [finished_task h hf f]
  have hi := reachable_flattenInv h
  obtain ⟨o, ho⟩ := hi.outer.ended_of_completed hf.1
  obtain ⟨hrtc, v, hv⟩ | ⟨hne', e, he⟩ := ho ▸ ended_resultOutcome o
  · obtain ⟨i, hin⟩ := hi.inner.ended_of_completed (hf.2.1 hrtc)
    have hflat : flattenedBy f s.outer s.inner = awaitInner s.inner {} := by
      cases f <;> simp_all [flattenedBy]
    rw [hflat, hv, hin]
    exact awaitInner_ended i
  · have hflat : flattenedBy f s.outer s.inner = ({} : TaskSharedState α ε).coThrow e := by
      cases f <;> simp_all [flattenedBy]
    rw [hflat, he]
    exact coThrow_created e

/-- Where everything has finished: the proxy of `Unwrap` mirrors both levels, and yields
    what the tasks of `Fbind` and `TaskFactory::Run` yield, if and only if the outer task
    ran to completion. -/
theorem unwrap_mirrors_iff {s : FlattenSystem α ε}
    (h : (flattenMachine α ε).Reachable Machine.Any s) (hf : s.Finished) :
    (Mirrors s.outer s.inner (s.task .unwrap) ∧
        ∀ f, (s.task .unwrap).resultOutcome = (s.task f).resultOutcome) ↔
      s.outer.state = .runToCompletion := by
  have hproxy := finished_task h hf .unwrap
  have hi := reachable_flattenInv h
  obtain ⟨o, ho⟩ := hi.outer.ended_of_completed hf.1
  obtain ⟨hrtc, v, hv⟩ | ⟨hne, e, he⟩ := ho ▸ ended_resultOutcome o
  · refine ⟨fun _ => hrtc, fun _ => ?_⟩
    obtain ⟨i, hin⟩ := hi.inner.ended_of_completed (hf.2.1 hrtc)
    have hcopy : s.task .unwrap = copyToProxy (.ended i) {} := by
      rw [hproxy, ← hin]
      simp [flattenedBy, hv]
    obtain ⟨hmirror, hsame⟩ := copyToProxy_mirrors i
    refine ⟨?_, fun f => ?_⟩
    · rw [hcopy, hin]
      simpa only [Mirrors, hrtc] using hmirror
    · by_cases hfu : f = .unwrap
      · rw [hfu]
      · rw [(flatten_mirrors h hf hfu).2, hv, hcopy, hin]
        exact hsame
  · refine ⟨fun hm => ?_, fun hr => absurd hr hne⟩
    have hnone : s.task .unwrap = {} := by
      rw [hproxy]
      simp [flattenedBy, he]
    have hm := hm.1
    rw [hnone, ho] at hm
    cases o with
    | value v => exact absurd (by rw [ho]; rfl) hne
    | exception e => cases hm.1
    | canceled stored => cases hm

/-- The inner task ended first; the outer one and the three flattenings follow. -/
def flattenRun (o : Completion Unit Empty) : List (FlattenLabel ℕ Empty) :=
  [.completeInner (.value 7), .call .unwrap, .call .fbind, .completeOuter o, .call .taskFactoryRun,
    .invoke .unwrap, .invoke .fbind, .resume .taskFactoryRun, .resume .fbind, .resume .unwrap]

/-- The outer task returns an inner task with the value `7`: all three yield `7`. -/
theorem unwrap_mirrors_iff_value :
    ∃ s : FlattenSystem ℕ Empty, (flattenMachine ℕ Empty).Reachable Machine.Any s ∧
      s.Finished ∧ ∀ f, (s.task f).resultOutcome = .ok (some 7) := by
  have hr : (flattenMachine ℕ Empty).run {} (flattenRun (.value ()) ++
    [.resume .unwrap, .resume .fbind, .resume .taskFactoryRun]) = some _ := rfl
  have hf := (unwrap_mirrors_iff (.of_run hr)
    ⟨rfl, fun _ => rfl, fun f => by cases f <;> rfl⟩).mpr rfl
  refine ⟨_, .of_run hr, ⟨rfl, fun _ => rfl, fun f => by cases f <;> rfl⟩, fun f => ?_⟩
  rw [← hf.2 f]
  rfl

/-- The outer task throws: everything has finished, `Fbind` and `TaskFactory::Run` are
    faulted with the exception, and the proxy of `Unwrap` is still in state `Created`. -/
theorem not_unwrap_mirrors :
    ∃ s : FlattenSystem ℕ Empty, (flattenMachine ℕ Empty).Reachable Machine.Any s ∧
      s.Finished ∧ s.outer.state = .faulted ∧ (s.task .fbind).state = .faulted ∧
        (s.task .taskFactoryRun).state = .faulted ∧ (s.task .unwrap).state = .created ∧
          ¬ Mirrors s.outer s.inner (s.task .unwrap) := by
  have hr : (flattenMachine ℕ Empty).run {} (flattenRun (.exception (.logicError "outer"))) =
    some _ := rfl
  refine ⟨_, .of_run hr, ⟨rfl, nofun, fun f => by cases f <;> rfl⟩, rfl, rfl, rfl, rfl, ?_⟩
  rintro ⟨h, -⟩
  cases h

end AsyncCpp.Tasks
