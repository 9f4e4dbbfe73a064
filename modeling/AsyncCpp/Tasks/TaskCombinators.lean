import AsyncCpp.Tasks.Unwrap

/-!
# `Fmap` and `Fbind`

The two combinators of Tasks/TaskCombinators.h are coroutines. A program built from them is an
expression: existing tasks, `TaskFromResult`, and calls of `Fbind` and `Fmap` whose
functions return tasks or throw. Evaluating an expression makes a tree of running
coroutines; a step completes one of the existing tasks, resumes one coroutine whose awaited
task is completed, or publishes the result of one that has ended its body. Every order of
these steps is a run.

Every call of a function is logged under the name the expression gives the function.

Results:
* `run_outcome`: in every run of an expression that makes a task, the task completes with
  the outcome of the expression, and the functions called are the ones the outcomes of the
  earlier stages ask for.
* `task_monad_laws`: hence the laws.
-/

namespace AsyncCpp.Tasks

open Interleaving

variable {ι ε α β γ : Type}

/-! ## Outcomes -/

/-- What `Result()` of a task that ended returns or throws. -/
def Completion.outcome : Completion α ε → Except (Exn ε) α
  | .value v => .ok v
  | .exception e => .error e
  | .canceled _ => .error .operationCanceled

/-- `Result()` of a completed task, where the outcome is `o`. -/
def yields (o : Except (Exn ε) α) : Except (Option (Exn ε)) (Option α) :=
  match o with
  | .ok v => .ok (some v)
  | .error e => .error (some e)

theorem yields_outcome (o : Completion α ε) :
    (TaskSharedState.ended o).resultOutcome = yields o.outcome := by
  cases o with
  | value v => rfl
  | exception e => rfl
  | canceled stored => cases stored <;> rfl

/-! ## Expressions -/

/-- An expression for a `Task<α>`: a task that ends with `o`, completed or not when the
    expression is evaluated; a call of `TaskFromResult`, `Fbind` or `Fmap`; or an
    expression whose evaluation throws. -/
inductive TaskExpr (ι ε : Type) : Type → Type 1
  | task {α : Type} (o : Completion α ε) (completed : Bool) : TaskExpr ι ε α
  | fromResult {α : Type} (taskResult : α) : TaskExpr ι ε α
  | throwing {α : Type} (e : Exn ε) : TaskExpr ι ε α
  | fbind {α β : Type} (name : ι) (srcTask : TaskExpr ι ε α) (mapFunc : α → TaskExpr ι ε β) :
    TaskExpr ι ε β
  | fmap {α β : Type} (name : ι) (srcTask : TaskExpr ι ε α) (mapFunc : α → Except (Exn ε) β) :
    TaskExpr ι ε β

/-- A task and everything that has to happen before it is completed: it ends with `o`; or it
    belongs to a coroutine that awaits `srcTask`, awaits the task `mapFunc` returned, has
    ended its body with `r` and is before `final_suspend`, or has published `r`. -/
inductive Running (ι ε : Type) : Type → Type 1
  | task {α : Type} (o : Completion α ε) (completed : Bool) : Running ι ε α
  | fbindSource {α β : Type} (name : ι) (srcTask : Running ι ε α) (mapFunc : α → TaskExpr ι ε β) :
    Running ι ε β
  | fbindInner {β : Type} (inner : Running ι ε β) : Running ι ε β
  | fmapSource {α β : Type} (name : ι) (srcTask : Running ι ε α)
    (mapFunc : α → Except (Exn ε) β) : Running ι ε β
  | finalSuspend {β : Type} (r : Except (Exn ε) β) : Running ι ε β
  | ended {β : Type} (r : Except (Exn ε) β) : Running ι ε β

/-- The promise of a coroutine whose body ended with `r`, before `final_suspend`: either
    `return_value` or `unhandled_exception` (Tasks/TaskCompletionSource.h:141-181). -/
def promise : Except (Exn ε) α → TaskSharedState α ε
  | .ok v => ({} : TaskSharedState α ε).exec (.setResult v false)
  | .error e => ({} : TaskSharedState α ε).exec
      (if e.isOperationCanceled then .setCanceled false else .setException (some e) false)

/-- The shared state of the task. -/
def Running.shared : Running ι ε α → TaskSharedState α ε
  | .task o completed => if completed then .ended o else {}
  | .fbindSource _ _ _ | .fbindInner _ | .fmapSource _ _ _ => {}
  | .finalSuspend r => promise r
  | .ended r => (promise r).exec .publishResult

/-- Evaluates the expression; a `TaskFromResult` (Tasks/TaskCombinators.h:97-104) is a task that
    is complete at once. Arguments are evaluated before the call, so `Fbind(g(v), h)`
    throws where `g(v)` does. -/
def TaskExpr.eval : {α : Type} → TaskExpr ι ε α → Except (Exn ε) (Running ι ε α)
  | _, .task o completed => .ok (.task o completed)
  | _, .fromResult v => .ok (.task (.value v) true)
  | _, .throwing e => .error e
  | _, .fbind name srcTask mapFunc =>
    match srcTask.eval with
    | .ok r => .ok (.fbindSource name r mapFunc)
    | .error e => .error e
  | _, .fmap name srcTask mapFunc =>
    match srcTask.eval with
    | .ok r => .ok (.fmapSource name r mapFunc)
    | .error e => .error e

/-- Which coroutine or task of the tree moves. -/
inductive Position where
  | here
  | child (p : Position)

/-- One step at the given place, with the function it calls.
    `Fbind`: `co_return co_await mapFunc(co_await srcTask).ConfigureAwait(false)`;
    `Fmap`: `co_return mapFunc(co_await srcTask.ConfigureAwait(false))`
    (Tasks/TaskCombinators.h:160-171). `await_resume` calls `Result()` of the awaited task
    (Tasks/Task.h:191-203). -/
def Running.step : {α : Type} → Running ι ε α → Position → Option (Running ι ε α × List ι)
  | _, .task o false, .here => some (.task o true, [])
  | _, .fbindSource name srcTask mapFunc, .here =>
    if srcTask.shared.state.isCompleted then
      match srcTask.shared.resultOutcome with
      | .ok (some v) =>
        match (mapFunc v).eval with
        | .ok inner => some (.fbindInner inner, [name])
        | .error e => some (.finalSuspend (.error e), [name])
      | .error (some e) => some (.finalSuspend (.error e), [])
      | _ => none
    else none
  | _, .fbindSource name srcTask mapFunc, .child p =>
    (srcTask.step p).map fun r => (.fbindSource name r.1 mapFunc, r.2)
  | _, .fbindInner inner, .here =>
    if inner.shared.state.isCompleted then
      match inner.shared.resultOutcome with
      | .ok (some v) => some (.finalSuspend (.ok v), [])
      | .error (some e) => some (.finalSuspend (.error e), [])
      | _ => none
    else none
  | _, .fbindInner inner, .child p => (inner.step p).map fun r => (.fbindInner r.1, r.2)
  | _, .fmapSource name srcTask mapFunc, .here =>
    if srcTask.shared.state.isCompleted then
      match srcTask.shared.resultOutcome with
      | .ok (some v) => some (.finalSuspend (mapFunc v), [name])
      | .error (some e) => some (.finalSuspend (.error e), [])
      | _ => none
    else none
  | _, .fmapSource name srcTask mapFunc, .child p =>
    (srcTask.step p).map fun r => (.fmapSource name r.1 mapFunc, r.2)
  | _, .finalSuspend r, .here => some (.ended r, [])
  | _, _, _ => none

/-- A running expression and the functions called so far. -/
structure ExprRun (ι ε α : Type) where
  running : Running ι ε α
  log : List ι := []

/-- The machine of an expression that has been evaluated. -/
def exprMachine (r : Running ι ε α) : Machine (ExprRun ι ε α) Position where
  init := { running := r }
  step s p := (s.running.step p).map fun r => { running := r.1, log := s.log ++ r.2 }

/-! ## The outcome of an expression -/

/-- The value or the exception of the expression: the monad of exceptions. -/
def TaskExpr.outcome : {α : Type} → TaskExpr ι ε α → Except (Exn ε) α
  | _, .task o _ => o.outcome
  | _, .fromResult v => .ok v
  | _, .throwing e => .error e
  | _, .fbind _ srcTask mapFunc => srcTask.outcome.bind fun v => (mapFunc v).outcome
  | _, .fmap _ srcTask mapFunc => srcTask.outcome.bind mapFunc

/-- The functions the expression calls, in order: a function is called once, with the value
    of its source, where the source has one. -/
def TaskExpr.calls : {α : Type} → TaskExpr ι ε α → List ι
  | _, .task _ _ | _, .fromResult _ | _, .throwing _ => []
  | _, .fbind name srcTask mapFunc => srcTask.calls ++
    match srcTask.outcome with
    | .ok v => name :: (mapFunc v).calls
    | .error _ => []
  | _, .fmap name srcTask _ => srcTask.calls ++
    match srcTask.outcome with
    | .ok _ => [name]
    | .error _ => []

/-- The outcome of what is still to happen. -/
def Running.outcome : {α : Type} → Running ι ε α → Except (Exn ε) α
  | _, .task o _ => o.outcome
  | _, .fbindSource _ srcTask mapFunc => srcTask.outcome.bind fun v => (mapFunc v).outcome
  | _, .fbindInner inner => inner.outcome
  | _, .fmapSource _ srcTask mapFunc => srcTask.outcome.bind mapFunc
  | _, .finalSuspend r | _, .ended r => r

/-- The functions that are still to be called. -/
def Running.calls : {α : Type} → Running ι ε α → List ι
  | _, .task _ _ | _, .finalSuspend _ | _, .ended _ => []
  | _, .fbindSource name srcTask mapFunc => srcTask.calls ++
    match srcTask.outcome with
    | .ok v => name :: (mapFunc v).calls
    | .error _ => []
  | _, .fbindInner inner => inner.calls
  | _, .fmapSource name srcTask _ => srcTask.calls ++
    match srcTask.outcome with
    | .ok _ => [name]
    | .error _ => []

/-- A bound on the steps of a run of the expression. -/
def TaskExpr.steps : {α : Type} → TaskExpr ι ε α → ℕ
  | _, .task _ completed => if completed then 0 else 1
  | _, .fromResult _ | _, .throwing _ => 0
  | _, .fbind _ srcTask mapFunc => srcTask.steps + 3 +
    match srcTask.outcome with
    | .ok v => (mapFunc v).steps
    | .error _ => 0
  | _, .fmap _ srcTask _ => srcTask.steps + 2

/-- A bound on the steps that are still to come. -/
def Running.steps : {α : Type} → Running ι ε α → ℕ
  | _, .task _ completed => if completed then 0 else 1
  | _, .fbindSource _ srcTask mapFunc => srcTask.steps + 3 +
    match srcTask.outcome with
    | .ok v => (mapFunc v).steps
    | .error _ => 0
  | _, .fbindInner inner => inner.steps + 2
  | _, .fmapSource _ srcTask _ => srcTask.steps + 2
  | _, .finalSuspend _ => 1
  | _, .ended _ => 0

/-- Evaluating an expression calls no function and changes no outcome. -/
theorem eval_ok {x : TaskExpr ι ε α} {r : Running ι ε α} (h : x.eval = .ok r) :
    r.outcome = x.outcome ∧ r.calls = x.calls ∧ r.steps = x.steps := by
  induction x with
  | task o completed =>
    cases h
    exact ⟨rfl, rfl, rfl⟩
  | fromResult v =>
    cases h
    exact ⟨rfl, rfl, rfl⟩
  | throwing e => cases h
  | fbind name srcTask mapFunc ih | fmap name srcTask mapFunc ih =>
    simp only [TaskExpr.eval] at h
    split at h <;> cases h
    rename_i r hr
    obtain ⟨ho, hc, hn⟩ := ih hr
    simp only [Running.outcome, TaskExpr.outcome, Running.calls, TaskExpr.calls, Running.steps,
      TaskExpr.steps, ho, hc, hn, and_self]

theorem eval_error {x : TaskExpr ι ε α} {e : Exn ε} (h : x.eval = .error e) :
    x.outcome = .error e ∧ x.calls = [] := by
  induction x with
  | task o completed => cases h
  | fromResult v => cases h
  | throwing e =>
    cases h
    exact ⟨rfl, rfl⟩
  | fbind name srcTask mapFunc ih | fmap name srcTask mapFunc ih =>
    simp only [TaskExpr.eval] at h
    split at h <;> cases h
    rename_i he
    obtain ⟨ho, hc⟩ := ih he
    simp only [TaskExpr.outcome, TaskExpr.calls, ho, hc]
    exact ⟨rfl, rfl⟩

theorem promise_published (r : Except (Exn ε) α) :
    ((promise r).exec .publishResult).state.isCompleted = true ∧
      ((promise r).exec .publishResult).resultOutcome = yields r := by
  cases r with
  | ok v => exact ⟨rfl, rfl⟩
  | error e => cases e <;> exact ⟨rfl, rfl⟩

theorem promise_not_completed (r : Except (Exn ε) α) : (promise r).state.isCompleted = false := by
  cases r with
  | ok v => rfl
  | error e => cases e <;> rfl

namespace Running

/-- A completed task yields its outcome, and no function is still to be called for it. -/
theorem completed {r : Running ι ε α} (h : r.shared.state.isCompleted = true) :
    r.shared.resultOutcome = yields r.outcome ∧ r.calls = [] := by
  cases r with
  | task o completed =>
    cases completed with
    | false => cases h
    | true => exact ⟨yields_outcome o, rfl⟩
  | fbindSource | fbindInner | fmapSource => cases h
  | finalSuspend r =>
    rw [shared, promise_not_completed] at h
    cases h
  | ended r => exact ⟨(promise_published r).2, rfl⟩

/-- A step keeps the outcome, calls the first of the functions that were still to be called,
    and leaves fewer steps. -/
theorem step_spec {r r' : Running ι ε α} {p : Position} {new : List ι}
    (h : r.step p = some (r', new)) :
    r'.outcome = r.outcome ∧ new ++ r'.calls = r.calls ∧ r'.steps < r.steps := by
  induction r generalizing p new with
  | task o completed =>
    cases completed <;> cases p <;> cases h
    exact ⟨rfl, rfl, Nat.zero_lt_one⟩
  | fbindSource name srcTask mapFunc ih =>
    cases p with
    | child p =>
      obtain ⟨⟨src, new'⟩, hsrc, heq⟩ := Option.map_eq_some_iff.mp h
      cases heq
      obtain ⟨ho, hc, hn⟩ := ih hsrc
      simp only [Running.outcome, Running.calls, Running.steps, ho, ← hc, List.append_assoc,
        true_and]
      omega
    | here =>
      simp only [step] at h
      split at h
      case isFalse => cases h
      case isTrue hcompleted =>
        obtain ⟨hres, hcalls⟩ := completed hcompleted
        rw [hres] at h
        cases ho : srcTask.outcome with
        | ok v =>
          simp only [ho, yields] at h
          cases he : (mapFunc v).eval with
          | ok inner =>
            simp only [he] at h
            cases h
            obtain ⟨hout, hcall, hn⟩ := eval_ok he
            simp [Running.outcome, Running.calls, Running.steps, ho, hcalls, hout, hcall, hn,
              Except.bind]
            omega
          | error e =>
            simp only [he] at h
            cases h
            obtain ⟨hout, hcall⟩ := eval_error he
            simp [Running.outcome, Running.calls, Running.steps, ho, hcalls, hout, hcall,
              Except.bind]
            omega
        | error e =>
          simp only [ho, yields] at h
          cases h
          simp [Running.outcome, Running.calls, Running.steps, ho, hcalls, Except.bind]
  | fbindInner inner ih =>
    cases p with
    | child p =>
      obtain ⟨⟨src, new'⟩, hsrc, heq⟩ := Option.map_eq_some_iff.mp h
      cases heq
      obtain ⟨ho, hc, hn⟩ := ih hsrc
      exact ⟨ho, hc, Nat.add_lt_add_right hn 2⟩
    | here =>
      simp only [step] at h
      split at h
      case isFalse => cases h
      case isTrue hcompleted =>
        obtain ⟨hres, hcalls⟩ := completed hcompleted
        rw [hres] at h
        cases ho : inner.outcome <;> simp only [ho, yields] at h <;> cases h <;>
          exact ⟨ho.symm, hcalls.symm, Nat.lt_add_left _ (Nat.lt_succ_self 1)⟩
  | fmapSource name srcTask mapFunc ih =>
    cases p with
    | child p =>
      obtain ⟨⟨src, new'⟩, hsrc, heq⟩ := Option.map_eq_some_iff.mp h
      cases heq
      obtain ⟨ho, hc, hn⟩ := ih hsrc
      simp only [Running.outcome, Running.calls, Running.steps, ho, ← hc, List.append_assoc,
        true_and]
      omega
    | here =>
      simp only [step] at h
      split at h
      case isFalse => cases h
      case isTrue hcompleted =>
        obtain ⟨hres, hcalls⟩ := completed hcompleted
        rw [hres] at h
        cases ho : srcTask.outcome <;> simp only [ho, yields] at h <;> cases h <;>
          simp [Running.outcome, Running.calls, Running.steps, ho, hcalls, Except.bind]
  | finalSuspend r =>
    cases p <;> cases h
    exact ⟨rfl, rfl, Nat.zero_lt_one⟩
  | ended r => cases p <;> cases h

/-- Until the task is completed, something can happen. -/
theorem progress (r : Running ι ε α) (h : r.shared.state.isCompleted = false) :
    ∃ p, r.step p ≠ none := by
  induction r with
  | task o completed =>
    cases completed with
    | false => exact ⟨.here, nofun⟩
    | true =>
      cases o <;> cases h
  | fbindSource name srcTask mapFunc ih =>
    cases hc : srcTask.shared.state.isCompleted with
    | false =>
      obtain ⟨p, hp⟩ := ih hc
      exact ⟨.child p, by simpa [step] using hp⟩
    | true =>
      refine ⟨.here, ?_⟩
      simp only [step, hc, if_true, (completed hc).1]
      cases srcTask.outcome with
      | ok v =>
        simp only [yields]
        cases (mapFunc v).eval <;> nofun
      | error e => nofun
  | fbindInner inner ih =>
    cases hc : inner.shared.state.isCompleted with
    | false =>
      obtain ⟨p, hp⟩ := ih hc
      exact ⟨.child p, by simpa [step] using hp⟩
    | true =>
      refine ⟨.here, ?_⟩
      simp only [step, hc, if_true, (completed hc).1]
      cases inner.outcome <;> nofun
  | fmapSource name srcTask mapFunc ih =>
    cases hc : srcTask.shared.state.isCompleted with
    | false =>
      obtain ⟨p, hp⟩ := ih hc
      exact ⟨.child p, by simpa [step] using hp⟩
    | true =>
      refine ⟨.here, ?_⟩
      simp only [step, hc, if_true, (completed hc).1]
      cases srcTask.outcome <;> nofun
  | finalSuspend r => exact ⟨.here, nofun⟩
  | ended r =>
    rw [shared, (promise_published r).1] at h
    cases h

end Running

/-! ## Runs -/

/-- The task of the expression is completed. -/
def ExprRun.isCompleted (s : ExprRun ι ε α) : Bool := s.running.shared.state.isCompleted

/-- What is called and what is still to be called make up the calls of the expression. -/
structure RunInv (x : TaskExpr ι ε α) (s : ExprRun ι ε α) : Prop where
  outcome : s.running.outcome = x.outcome
  calls : s.log ++ s.running.calls = x.calls

theorem reachable_runInv {x : TaskExpr ι ε α} {r : Running ι ε α} {s : ExprRun ι ε α}
    (he : x.eval = .ok r) (h : (exprMachine r).Reachable Machine.Any s) : RunInv x s := by
  obtain ⟨ho, hc, -⟩ := eval_ok he
  refine h.invariant ⟨ho, hc⟩ fun s p s' hi _ hs => ?_
  obtain ⟨⟨r', new⟩, hstep, rfl⟩ := Option.map_eq_some_iff.mp hs
  obtain ⟨ho', hc', -⟩ := Running.step_spec hstep
  refine ⟨ho'.trans hi.outcome, ?_⟩
  rw [List.append_assoc, hc']
  exact hi.calls

/-- Every run of the expression `x`, where it makes a task, ends, completes the task with
    outcome `o`, and calls the functions `calls`. -/
def Settles (x : TaskExpr ι ε α) (o : Except (Exn ε) α) (calls : List ι) : Prop :=
  ∀ r, x.eval = .ok r → ∀ s, (exprMachine r).Reachable Machine.Any s →
    s.log <+: calls ∧
    (s.isCompleted = true → s.running.shared.resultOutcome = yields o ∧ s.log = calls) ∧
    (s.isCompleted = false → ∃ p, (exprMachine r).step s p ≠ none) ∧
    ∀ p s', (exprMachine r).step s p = some s' → s'.running.steps < s.running.steps

theorem run_outcome (x : TaskExpr ι ε α) : Settles x x.outcome x.calls := by
  intro r he s h
  have hi := reachable_runInv he h
  refine ⟨⟨_, hi.calls⟩, fun hc => ?_, fun hc => ?_, fun p s' hs => ?_⟩
  · obtain ⟨hres, hcalls⟩ := Running.completed hc
    have hlog := hi.calls
    rw [hi.outcome] at hres
    rw [hcalls, List.append_nil] at hlog
    exact ⟨hres, hlog⟩
  · obtain ⟨p, hp⟩ := s.running.progress hc
    exact ⟨p, by simpa [exprMachine] using hp⟩
  · obtain ⟨⟨r', new⟩, hstep, rfl⟩ := Option.map_eq_some_iff.mp hs
    exact (Running.step_spec hstep).2.2

/-! ## The laws -/

/-- The tasks the two expressions make have the same outcome, whenever both are completed. -/
def Agree (x y : TaskExpr ι ε α) : Prop :=
  ∀ r r', x.eval = .ok r → y.eval = .ok r' →
    ∀ s s', (exprMachine r).Reachable Machine.Any s → (exprMachine r').Reachable Machine.Any s' →
      s.isCompleted = true → s'.isCompleted = true →
        s.running.shared.resultOutcome = s'.running.shared.resultOutcome

theorem agree_of_outcome {x y : TaskExpr ι ε α} (h : x.outcome = y.outcome) : Agree x y := by
  intro r r' he he' s s' hs hs' hc hc'
  rw [((run_outcome x r he s hs).2.1 hc).1, ((run_outcome y r' he' s' hs').2.1 hc').1, h]

/-- `v ↦ TaskFromResult(k(v))`, which throws where `k` does. -/
def fromResultOf (k : α → Except (Exn ε) β) (v : α) : TaskExpr ι ε β :=
  match k v with
  | .ok w => .fromResult w
  | .error e => .throwing e

theorem outcome_fromResultOf (k : α → Except (Exn ε) β) (v : α) :
    (fromResultOf k v : TaskExpr ι ε β).outcome = k v := by
  unfold fromResultOf
  cases k v <;> rfl

theorem bind_assoc (o : Except (Exn ε) α) (g : α → Except (Exn ε) β) (h : β → Except (Exn ε) γ) :
    (o.bind g).bind h = o.bind fun v => (g v).bind h := by
  cases o <;> rfl

theorem calls_assoc (name name' : ι) (m : TaskExpr ι ε α) (g : α → TaskExpr ι ε β)
    (h : β → TaskExpr ι ε γ) :
    (TaskExpr.fbind name' (.fbind name m g) h).calls =
      (TaskExpr.fbind name m fun v => .fbind name' (g v) h).calls := by
  simp only [TaskExpr.calls, TaskExpr.outcome, List.append_assoc]
  cases m.outcome <;> rfl

/-- The laws, for all tasks and all functions that return tasks or throw: every run of either
    side completes the task with one outcome (`Settles`), and the outcomes agree. Where a
    stage has failed, none of the functions after it is called. -/
theorem task_monad_laws (name name' : ι) :
    (∀ x : TaskExpr ι ε α, Settles x x.outcome x.calls) ∧
    (∀ (a : α) (f : α → TaskExpr ι ε β), Agree (.fbind name (.fromResult a) f) (f a)) ∧
    (∀ m : TaskExpr ι ε α, Agree (.fbind name m .fromResult) m) ∧
    (∀ (m : TaskExpr ι ε α) (g : α → TaskExpr ι ε β) (h : β → TaskExpr ι ε γ),
      Agree (.fbind name' (.fbind name m g) h) (.fbind name m fun v => .fbind name' (g v) h) ∧
        (TaskExpr.fbind name' (.fbind name m g) h).calls =
          (TaskExpr.fbind name m fun v => .fbind name' (g v) h).calls) ∧
    (∀ (m : TaskExpr ι ε α) (k : α → Except (Exn ε) β),
      Agree (.fmap name m k) (.fbind name m (fromResultOf k))) ∧
    (∀ (m : TaskExpr ι ε α) (k : α → Except (Exn ε) β) (k' : β → Except (Exn ε) γ),
      Agree (.fmap name' (.fmap name m k) k') (.fmap name m fun v => (k v).bind k')) ∧
    (∀ (m : TaskExpr ι ε α) (e : Exn ε) (g : α → TaskExpr ι ε β) (k : α → Except (Exn ε) β),
      m.outcome = .error e →
        Settles (.fbind name m g) (.error e) m.calls ∧ Settles (.fmap name m k) (.error e) m.calls) := by
  refine ⟨run_outcome, fun a f => agree_of_outcome rfl, fun m => agree_of_outcome ?_,
    fun m g h => ⟨agree_of_outcome ?_, calls_assoc name name' m g h⟩,
    fun m k => agree_of_outcome ?_,
    fun m k k' => agree_of_outcome ?_, fun m e g k he => ⟨?_, ?_⟩⟩
  · simp only [TaskExpr.outcome]
    cases m.outcome <;> rfl
  · exact bind_assoc _ _ _
  · simp only [TaskExpr.outcome, outcome_fromResultOf]
  · exact bind_assoc _ _ _
  · have hrun := run_outcome (.fbind name m g)
    simpa only [TaskExpr.outcome, TaskExpr.calls, he, Except.bind, List.append_nil] using hrun
  · have hrun := run_outcome (.fmap name m k)
    simpa only [TaskExpr.outcome, TaskExpr.calls, he, Except.bind, List.append_nil] using hrun

/-- A task that completes later with 10, and a function `g` that throws: both sides of the
    associativity law are faulted with its exception, and `h` is not called. -/
theorem task_monad_laws_throwing :
    ∃ s s' : ExprRun ℕ Empty ℕ, s.isCompleted = true ∧ s.log = [0] ∧ s'.log = [0] ∧
      s.running.shared.resultOutcome = .error (some (.logicError "g")) ∧
      s.running.shared.resultOutcome = s'.running.shared.resultOutcome := by
  let m : TaskExpr ℕ Empty ℕ := .task (.value 10) false
  let g : ℕ → TaskExpr ℕ Empty ℕ := fun _ => .throwing (.logicError "g")
  let h : ℕ → TaskExpr ℕ Empty ℕ := .fromResult
  obtain ⟨r, r', s, s', he, he', hs, hs', hc, hc', hl, hl', hres⟩ :
      ∃ r r' : Running ℕ Empty ℕ, ∃ s s' : ExprRun ℕ Empty ℕ,
        (TaskExpr.fbind 1 (.fbind 0 m g) h).eval = .ok r ∧
        (TaskExpr.fbind 0 m fun v => .fbind 1 (g v) h).eval = .ok r' ∧
        (exprMachine r).run { running := r } [.child (.child .here), .child .here, .child .here,
          .here, .here] = some s ∧
        (exprMachine r').run { running := r' } [.child .here, .here, .here] = some s' ∧
        s.isCompleted = true ∧ s'.isCompleted = true ∧ s.log = [0] ∧ s'.log = [0] ∧
        s.running.shared.resultOutcome = .error (some (.logicError "g")) :=
    ⟨_, _, _, _, rfl, rfl, rfl, rfl, rfl, rfl, rfl, rfl, rfl⟩
  have hlaw := ((task_monad_laws 0 1).2.2.2.1 m g h).1
  exact ⟨s, s', hc, hl, hl', hres, hlaw r r' he he' s s' (.of_run hs) (.of_run hs') hc hc'⟩

end AsyncCpp.Tasks
