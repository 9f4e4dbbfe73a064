import AsyncCpp.Tasks.Coroutines

/-!
# Coroutines compute what functions compute

The bodies of coroutines are programs that await each other. Here the coroutines of `Coroutines`,
with everything their schedulers, contexts and other threads do, simulate the programs of
`AwaitPrograms`, where an await is one step.

Results:
* `coroutines_simulate_programs`: the coroutines do what the programs do.
* `coroutines_return`: hence, in every run, each task completes with the outcome its coroutine has
  when run as an ordinary function, which calls the coroutines it awaits; and where no coroutine
  awaits in a circle and nobody can go on, every task is completed.
-/

namespace AsyncCpp.Tasks

open Interleaving AwaitProgram

variable {ε α : Type} {ι T C : Type*} {β : ℕ → Type*} {n : ℕ} {returnsResult : ι → Bool}

/-! ## The programs -/

section Programs

variable [Fintype ι] [Fintype T] [DecidableEq ι] [DecidableEq T]
  {s s' : CoroutineSystem ι α β ε T C n} {programs : ι → CoroutineProgram ι α ε n}

namespace CoroutineBody

/-- Where the program is. -/
def place : CoroutineBody ι α ε n →
    Place ι (Except (Exn ε) α) (Except (Option (Exn ε)) (Option α))
  | running m _ p => .running m p
  | awaiting m _ i next => .running (m + 1) (.await i next)
  | returned o | published o => .completed o

omit [Fintype ι] [DecidableEq ι] in
theorem published_of_isCompleted {b : CoroutineBody ι α ε n} (h : b.shared.state.isCompleted) :
    ∃ o, b = .published o := by
  cases b with
  | running | awaiting => cases h
  | returned o =>
    rw [shared, promise_not_completed] at h
    cases h
  | published o => exact ⟨o, rfl⟩

end CoroutineBody

omit [Fintype ι] in
theorem place_update (body : ι → CoroutineBody ι α ε n) (j : ι) (b : CoroutineBody ι α ε n) :
    (fun k => (Function.update body j b k).place) =
      Function.update (fun k => (body k).place) j b.place :=
  Function.comp_update CoroutineBody.place body j b

omit [Fintype ι] in
theorem place_update_of_eq {body : ι → CoroutineBody ι α ε n} {j : ι} {b : CoroutineBody ι α ε n}
    (hb : b.place = (body j).place) :
    (fun k => (Function.update body j b k).place) = fun k => (body k).place := by
  rw [place_update, hb]
  exact Function.update_eq_self j fun k => (body k).place

/-- A completed task belongs to a coroutine that has published its outcome. -/
theorem CoroutineInv.published (h : CoroutineInv returnsResult s) {i : ι}
    (hc : (s.tasks i).tasks.antecedent.task.state.isCompleted) :
    ∃ o, s.body i = .published o ∧
      SameShared ((promise o).exec .publishResult) (s.tasks i).tasks.antecedent.task := by
  have hshared := (h.fits i).shared
  rw [hshared.1.1] at hc
  obtain ⟨o, ho⟩ := CoroutineBody.published_of_isCompleted hc
  rw [ho] at hshared
  exact ⟨o, ho, hshared⟩

/-- The coroutines do what the programs do. -/
theorem coroutines_simulate_programs :
    Machine.Simulates (coroutineMachine returnsResult programs β T C)
      (programMachine (observe returnsResult) programs) CoroutineGuard Machine.Any
      fun s t => t = fun j => (s.body j).place where
  init := rfl
  step := by
    rintro s l s' _ hr - rfl hg hs
    have h := reachable_coroutineInv hr
    cases CoroutineSystem.step_cases hs with
    | task => exact ⟨_, .refl, rfl⟩
    | await hj => exact ⟨_, .refl, (place_update_of_eq (by rw [hj]; rfl)).symm⟩
    | @goOn j m hm i next outcome hj hpc =>
      -- the program awaits the outcome that the other coroutine has published
      have hplace := (h.fits i).awaits.place (j, ⟨m, hm⟩)
      rw [hpc] at hplace
      obtain ⟨-, hc, rfl⟩ := hplace
      obtain ⟨o, hi, hshared⟩ := h.published hc
      refine ⟨_, .single (a := j) trivial ?_, (place_update ..).symm⟩
      simp [programMachine, AwaitProgram.step, hj, hi, CoroutineBody.place, observe,
        hshared.awaitOutcome]
    | @finish j m hm o t hj ht =>
      refine ⟨_, .single (a := j) trivial ?_, (place_update ..).symm⟩
      simp [programMachine, AwaitProgram.step, hj, CoroutineBody.place]
    | publish hj => exact ⟨_, .refl, (place_update_of_eq (by rw [hj]; rfl)).symm⟩

/-! ## Where nobody can go on -/

/-- The steps that begin no call of others. -/
def CoroutineLabel.isOwn : CoroutineLabel ι α β ε T C n → Bool
  | .task _ l => l.isOwn
  | _ => true

/-- No such step is possible. -/
abbrev CoroutineSystem.Rests (returnsResult : ι → Bool) (s : CoroutineSystem ι α β ε T C n) :
    Prop :=
  ∀ l : CoroutineLabel ι α β ε T C n, l.isOwn → s.step returnsResult l = none

omit [Fintype ι] [Fintype T] in
theorem rests_task (hrest : s.Rests returnsResult) (i : ι) :
    (s.tasks i).Rests .promise (returnsResult i) := by
  intro l hl
  have hothers : l.ofOthers := by
    cases l with
    | awaitReady => cases hl
    | task l =>
      cases l with
      | antecedent l => cases l <;> first | rfl | cases hl
      | _ => rfl
    | _ => rfl
  have hnone := hrest (.task i l) hl
  simp only [CoroutineSystem.step, hothers, if_true, CoroutineSystem.stepTask,
    Option.map_eq_none_iff] at hnone
  exact hnone

omit [DecidableEq ι] [Fintype ι] [Fintype T] [DecidableEq T] in
theorem calls_congr {x y : TaskSharedState α ε} (h : SameShared x y) (c : SetCall α ε) :
    TaskKind.promise.calls y c = TaskKind.promise.calls x c := by
  obtain ⟨⟨h1, -, -⟩, h4⟩ := h
  cases c with
  | setException e completeTask => cases e <;> simp only [TaskKind.calls, h1, h4]
  | _ => simp only [TaskKind.calls, h1, h4]

/-- Where nobody can go on, the promise of a task that is not completed can make its call. -/
theorem TaskFits.call_ne_none {A : Type*} [Fintype A] [DecidableEq A] {r : Bool}
    {x : TaskSharedState α ε} {t : AwaitSystem α β ε (Option T) A C} (h : TaskFits r x t)
    (hrest : t.Rests .promise r) (hx : x.state.isCompleted = false) {c : SetCall α ε}
    (hc : TaskKind.promise.calls x c) :
    t.step .promise r (.task (.antecedent (.set (.thread none) c))) ≠ none := by
  have hi := reachable_continuationInv h.awaits.tasks
  have hstuck := h.awaits.stuck_of_rests hrest
  have hlock := lock_free_of_stuck (reachable_continuationsOk hi.antecedent)
    (hi.runStep_of_stuck hstuck)
  have hidle := h.promiseIdle hx
  have hset : TaskSystem.step .promise t.tasks.antecedent (.set (.thread none) c) ≠ none := by
    rw [← calls_congr h.shared] at hc
    simp only [TaskSystem.step, hidle, hlock, hc, Option.isNone_none, and_self, if_true]
    split <;> simp
  simpa [AwaitSystem.step, AwaitSystem.permits, ContinuationRun.step, TaskLabel.thread,
    TaskSystem.invokes, hi.noThrow.2, hi.starting_of_stuck hstuck] using hset

theorem endCall_calls (o : Except (Exn ε) α) :
    TaskKind.promise.calls ({} : TaskSharedState α ε) (endCall o) := by
  cases o with
  | ok v => rfl
  | error e => by_cases he : e.isOperationCanceled <;> simp [endCall, TaskKind.calls, he]

theorem publishResult_calls (o : Except (Exn ε) α) :
    TaskKind.promise.calls (promise o) .publishResult := by
  cases o with
  | ok v => rfl
  | error e =>
    by_cases he : e.isOperationCanceled <;>
      simp [promise, TaskSharedState.exec, SetCall.apply, TaskKind.calls, he]

/-- Where nobody can go on, every outcome has been published. -/
theorem CoroutineInv.ne_returned_of_rests (h : CoroutineInv returnsResult s)
    (hrest : s.Rests returnsResult) (j : ι) (o : Except (Exn ε) α) : s.body j ≠ .returned o := by
  intro hj
  have hfits := h.fits j
  rw [hj] at hfits
  have hnone := hrest (.publish j) rfl
  have hcall := hfits.call_ne_none (rests_task hrest j) (promise_not_completed o)
    (publishResult_calls o)
  simp [CoroutineSystem.step, CoroutineSystem.call, CoroutineSystem.stepTask, hj, hcall] at hnone

/-- Where nobody can go on, no program can. -/
theorem program_rests (h : CoroutineInv returnsResult s) (hrest : s.Rests returnsResult) (j : ι) :
    AwaitProgram.step (observe returnsResult) (fun k => (s.body k).place) j = none := by
  have hfits := h.fits j
  cases hj : s.body j with
  | running m hm p =>
    exfalso
    rw [hj] at hfits
    cases p with
    | done o =>
      have hnone := hrest (.finish j) rfl
      have hcall := hfits.call_ne_none (rests_task hrest j) rfl (endCall_calls o)
      simp [CoroutineSystem.step, CoroutineSystem.call, CoroutineSystem.stepTask, hj,
        hcall] at hnone
    | await i next =>
      have hnone := hrest (.await j { taskAwaiterAwaitReadyAlwaysReturnsFalse := true } false) rfl
      have hpc := h.unused i j ⟨_, hm⟩ (by rw [hj]; exact Nat.lt_succ_self _)
      simp [CoroutineSystem.step, CoroutineSystem.stepTask, AwaitSystem.step,
        AwaitSystem.asksCompleted, hj, hpc] at hnone
  | awaiting m hm i next =>
    cases hi : s.body i with
    | running | awaiting => simp [AwaitProgram.step, CoroutineBody.place, hj, hi]
    | returned o => exact absurd hi (h.ne_returned_of_rests hrest i o)
    | published o =>
      -- the task is completed, so the `co_await` is over
      have hc : (s.tasks i).tasks.antecedent.task.state.isCompleted := by
        rw [(h.fits i).shared.1.1, hi]
        exact (promise_published o).1
      have hnone := hrest (.goOn j) rfl
      obtain hb | ⟨outcome, hover⟩ :=
        (h.fits i).awaits.finished_of_rests hc (rests_task hrest i) (j, ⟨m, hm⟩)
      · exact absurd hb (h.begun j m hm i next hj)
      · simp [CoroutineSystem.step, hj, hover] at hnone
  | returned o | published o => simp [AwaitProgram.step, CoroutineBody.place, hj]

/-- What holds of the tasks of coroutines with the given bodies. -/
structure CoroutinesReturn (returnsResult : ι → Bool) (programs : ι → CoroutineProgram ι α ε n)
    (s : CoroutineSystem ι α β ε T C n) : Prop where
  /-- A completed task has the one outcome that the call of the coroutine as a function has. -/
  outcome : ∀ j, (s.tasks j).tasks.antecedent.task.state.isCompleted →
    ∃ o, Returns (observe returnsResult) programs (programs j) o ∧
      (s.tasks j).tasks.antecedent.task.resultOutcome = yields o ∧
      ∀ o', Returns (observe returnsResult) programs (programs j) o' → o' = o
  /-- Where no coroutine awaits in a circle and nobody can go on, every task is completed. -/
  completed : ∀ awaitedBy : ι → ι → Prop, WellFounded awaitedBy →
    (∀ j, (programs j).Awaits (awaitedBy · j)) → s.Rests returnsResult →
    ∀ j, (s.tasks j).tasks.antecedent.task.state.isCompleted

/-- In every run of coroutines that await each other's tasks, in which the other users of the
    tasks meet the condition. -/
theorem coroutines_return
    (h : (coroutineMachine returnsResult programs β T C).Reachable CoroutineGuard s) :
    CoroutinesReturn returnsResult programs s := by
  have hinv := reachable_coroutineInv h
  obtain ⟨t, ht, rfl⟩ := coroutines_simulate_programs.reachable h
  refine ⟨fun j hc => ?_, fun r hr hprograms hrest j => ?_⟩
  · obtain ⟨o, hj, hshared⟩ := hinv.published hc
    have hreturns := returns_of_completed (j := j) (o := o) ht (by rw [hj]; rfl)
    refine ⟨o, hreturns, ?_, fun o' ho' => ho'.det hreturns⟩
    rw [hshared.1.resultOutcome]
    exact (promise_published o).2
  · obtain ⟨o, ho⟩ := completed_of_rest hr hprograms ht (program_rests hinv hrest) j
    rw [(hinv.fits j).shared.1.1]
    cases hj : s.body j with
    | running | awaiting =>
      rw [hj] at ho
      cases ho
    | published o => exact (promise_published o).1
    | returned o => exact absurd hj (hinv.ne_returned_of_rests hrest j o)

end Programs

/-- Two coroutines: `false` returns 5, `true` awaits its task and returns one more. -/
def twoCoroutines : Bool → CoroutineProgram Bool ℕ Empty 1
  | false => .done (.ok 5)
  | true => .await false fun r => match r with
    | .ok (some v) => .done (.ok (v + 1))
    | _ => .done (.ok 0)

/-- The second coroutine suspends before the first one returns. -/
theorem coroutines_return_two :
    ∃ s : CoroutineSystem Bool ℕ (fun _ => Unit) Empty Unit Unit 1,
      CoroutinesReturn (fun _ => true) twoCoroutines s ∧
      (s.tasks true).tasks.antecedent.task.state = .runToCompletion ∧
      (s.tasks true).tasks.antecedent.task.resultOutcome = .ok (some 6) := by
  let M := coroutineMachine (fun _ => true) twoCoroutines (fun _ => Unit) Unit Unit
  have hr : M.Reachable CoroutineGuard _ :=
    .head (a := .await true {} false) rfl trivial <|
    .head (a := .task false (.awaitSuspend (true, 0) {})) rfl trivial <|
    .head (a := .task false (.continueWith (true, 0) {} none)) rfl trivial <|
    .head (a := .task false (.task (.antecedent (.run (.awaitSuspend (true, 0)))))) rfl nofun <|
    .head (a := .task false (.task (.antecedent (.run (.awaitSuspend (true, 0)))))) rfl nofun <|
    .head (a := .finish false) rfl trivial <|
    .head (a := .publish false) rfl trivial <|
    .head (a := .task false (.task (.antecedent (.run (.thread none))))) rfl nofun <|
    .head (a := .task false (.task (.antecedent (.run (.thread none))))) rfl nofun <|
    .head (a := .task false (.task (.invoke (.thread none)))) rfl trivial <|
    .head (a := .task false (.task (.starting (.thread none)))) rfl trivial <|
    .head (a := .task false (.task (.starting (.thread none)))) rfl trivial <|
    .head (a := .task false (.task (.continuation 0 (.body (.thread (some ())))))) rfl nofun <|
    .head (a := .task false (.task (.continuation 0 (.run (.thread (some ())))))) rfl nofun <|
    .head (a := .task false (.task (.continuation 0 (.run (.thread (some ())))))) rfl nofun <|
    .head (a := .task false (.invoke 0 (.thread (some ())))) rfl trivial <|
    .head (a := .task false (.awaitResume (true, 0))) rfl trivial <|
    .head (a := .task false (.resume (true, 0))) rfl trivial <|
    .head (a := .task false (.resume (true, 0))) rfl trivial <|
    .head (a := .goOn true) rfl trivial <|
    .head (a := .finish true) rfl trivial <|
    .head (a := .publish true) rfl trivial .refl
  exact ⟨_, coroutines_return hr, rfl, rfl⟩

end AsyncCpp.Tasks
