import AsyncCpp.AsyncPrimitives.SemaphoreCancellation

/-!
# The semaphore comes to rest

Whoever is inside `_waitersLock`, or runs the callbacks of a token, has a bounded number of
steps left: `Release` pops a waiter in every iteration of its loop, and a callback is run once.

Results:
* `AsyncSemaphore.advance_todo`, `AsyncSemaphore.runCancel_todo`: such a step lowers `todo`.
* `AsyncCollection.step_todo`: what the other steps add to it.
* `CanceledInv.step`: a `TakeAsync` is cancelled only when a token is.
-/

namespace AsyncCpp.AsyncPrimitives

open Interleaving Tasks

/-! ## The steps left -/

/-- The steps left to the thread that holds `_waitersLock`, with what it hands over to others:
    a waiter it queues counts 3, a callback it registers counts 2. -/
def Critical.todo {K : Type*} : Critical K → ℕ
  | .free => 0
  | .registering _ _ => 8
  | .registerChecked _ _ => 7
  | .emplacing _ _ => 4
  | .popped _ _ => 2
  | .disposing _ _ => 1

def CancelPhase.todo : CancelPhase → ℕ
  | .idle => 0
  | .exchanged => 2
  | .running is => is.length + 1

namespace AsyncSemaphore

variable {ε : Type*} {s s' : AsyncSemaphore Unit ε}

/-- The steps left, of the semaphore of a queue with one token. -/
def todo (s : AsyncSemaphore Unit ε) : ℕ :=
  3 * s.waiters.length + s.critical.todo + 2 * (s.token ()).cancelActions.length +
    (s.canceling ()).todo

/-- A waiter that is popped is in hand. -/
theorem popFront_todo (hw : s.waiters ≠ []) : s.popFront.todo < s.todo := by
  obtain ⟨⟨i, r⟩, ws, hws⟩ := List.exists_cons_of_ne_nil hw
  simp only [popFront, todo, hws, Critical.todo, List.length_cons]
  omega

/-- The loop of `Release` pops the next waiter, or is left. -/
theorem loopTest_todo (s : AsyncSemaphore Unit ε) (waiterReleased : Bool) :
    (s.loopTest waiterReleased).todo + s.critical.todo ≤ s.todo := by
  unfold loopTest
  split_ifs with h1 h2
  · simp only [todo, Critical.todo]
    omega
  · simp only [todo, Critical.todo]
    omega
  · obtain ⟨⟨i, r⟩, ws, hws⟩ :=
      List.exists_cons_of_ne_nil fun hnil => h2 (List.isEmpty_iff.mpr hnil)
    simp only [popFront, todo, hws, Critical.todo, List.length_cons]
    omega

theorem release_todo (s : AsyncSemaphore Unit ε) : s.release.todo ≤ s.todo := by
  unfold release
  split_ifs with h1 h2
  · exact le_rfl
  · exact le_rfl
  · exact (popFront_todo fun hnil => h2 (List.isEmpty_iff.mpr hnil)).le

theorem waitAsync_todo (hc : s.critical = .free) (k : Option Unit) :
    (s.waitAsync k).todo ≤ s.todo + 8 := by
  unfold waitAsync
  split_ifs
  · exact Nat.le_add_right ..
  · cases k <;>
      · simp only [todo, hc, Critical.todo]
        omega

/-- A registration that is disposed leaves no callback behind. -/
theorem disposeRegistration_todo (s : AsyncSemaphore Unit ε) (r : CancellationRegistration Unit) :
    (s.disposeRegistration r).todo ≤ s.todo := by
  cases r with
  | empty => exact le_rfl
  | remove k id =>
    obtain rfl : k = () := rfl
    have hle := List.length_filter_le (fun p => decide (p.1 ≠ id)) (s.token ()).cancelActions
    simp only [disposeRegistration, setToken, todo, Function.update_self,
      CtsSharedState.removeCancellation]
    omega

/-- The holder of `_waitersLock` goes on. -/
theorem advance_todo (hs : s.advance = some s') : s'.todo < s.todo := by
  cases advance_cases hs with
  | registerCanceled hc | registerChecked hc =>
    simp only [todo, trySetCanceled, hc, Critical.todo]
    omega
  | @registered i k hc =>
    obtain rfl : k = () := rfl
    simp only [todo, setToken, hc, Critical.todo, Function.update_self, CtsSharedState.pushAction,
      List.length_append, List.length_singleton]
    omega
  | emplaced hc =>
    simp only [todo, hc, Critical.todo, List.length_append, List.length_singleton]
    omega
  | @popped i hc =>
    have hle := loopTest_todo (s.trySetResult i) (decide ((s.waitTask i).state = .created))
    have hsame : (s.trySetResult i).todo = s.todo := rfl
    simp only [trySetResult, hc, Critical.todo] at hle hsame ⊢
    omega
  | @poppedRegistered i r hc =>
    simp only [todo, trySetResult, hc, Critical.todo]
    omega
  | @disposed r waiterReleased hc =>
    have hle := loopTest_todo (s.disposeRegistration r) waiterReleased
    have hdisposed := disposeRegistration_todo s r
    rw [disposeRegistration_critical, hc] at hle
    simp only [Critical.todo] at hle
    omega

theorem cancel_todo (hs : s.step (.cancel ()) = some s') : s'.todo ≤ s.todo + 2 := by
  simp only [step] at hs
  split_ifs at hs <;> cases hs
  · exact Nat.le_add_right ..
  · simp only [todo, setToken, Function.update_self, CancelPhase.todo]
    omega

/-- The callbacks are moved out, and run one by one. -/
theorem runCancel_todo (hs : s.runCancel () = some s') : s'.todo < s.todo := by
  cases runCancel_cases hs with
  | moved hk hfree =>
    simp only [todo, setToken, hk, Function.update_self, CtsSharedState.moveActions,
      CancelPhase.todo, List.length_map, List.length_nil]
    omega
  | ended hk | ran hk =>
    simp only [todo, trySetCanceled, hk, Function.update_self, CancelPhase.todo, List.length_cons,
      List.length_nil]
    omega

end AsyncSemaphore

/-- What a call leaves to do for whoever is inside the semaphore. -/
def CollectionLabel.adds {K α : Type*} : CollectionLabel K α → ℕ
  | .takeAsync _ => 8
  | .cancel _ => 2
  | .push _ | .release | .resume _ | .tryTakeAll | .advance | .runCancel _ => 0

namespace AsyncCollection

variable {α ε : Type*} {s s' : AsyncCollection Unit α ε} {a : CollectionLabel Unit α}

/-- The holder of `_waitersLock`, or the thread in `Cancel`, goes on. -/
theorem step_todo_lt (hs : s.step a = some s') (ha : a = .advance ∨ a = .runCancel ()) :
    s'.asyncSemaphore.todo < s.asyncSemaphore.todo := by
  rcases ha with rfl | rfl
  · obtain ⟨t, ht, rfl⟩ := semaphoreStep_cases hs
    exact AsyncSemaphore.advance_todo ht
  · obtain ⟨t, ht, rfl⟩ := semaphoreStep_cases hs
    exact AsyncSemaphore.runCancel_todo ht

theorem step_todo (hs : s.step a = some s') :
    s'.asyncSemaphore.todo ≤ s.asyncSemaphore.todo + a.adds := by
  cases a with
  | push item | tryTakeAll =>
    cases hs
    exact le_rfl
  | resume i => rcases resume_cases hs with ⟨x, xs, -, rfl⟩ | ⟨e, rfl⟩ <;> exact le_rfl
  | release =>
    simp only [step] at hs
    split_ifs at hs
    obtain ⟨t, ht, rfl⟩ := semaphoreStep_cases hs
    simp only [AsyncSemaphore.step] at ht
    split at ht <;> cases ht
    exact AsyncSemaphore.release_todo _
  | takeAsync k =>
    obtain ⟨t, ht, rfl⟩ := semaphoreStep_cases hs
    simp only [AsyncSemaphore.step] at ht
    split at ht <;> cases ht
    exact AsyncSemaphore.waitAsync_todo ‹_› k
  | cancel k =>
    obtain ⟨t, ht, rfl⟩ := semaphoreStep_cases hs
    exact AsyncSemaphore.cancel_todo ht
  | advance => exact (step_todo_lt hs (.inl rfl)).le
  | runCancel k => exact (step_todo_lt hs (.inr rfl)).le

end AsyncCollection

/-! ## Cancelled calls -/

namespace AsyncSemaphore

variable {K ε : Type*} {s s' : AsyncSemaphore K ε}

/-- A token is cancelled. -/
def Canceled (s : AsyncSemaphore K ε) : Prop := ∃ k, (s.token k).isCanceled

theorem popFront_waitTask (s : AsyncSemaphore K ε) : s.popFront.waitTask = s.waitTask :=
  (CancelInv.popFront_waitTask s).1

theorem loopTest_waitTask (s : AsyncSemaphore K ε) (waiterReleased : Bool) :
    (s.loopTest waiterReleased).waitTask = s.waitTask := by
  unfold loopTest
  split_ifs
  · rfl
  · rfl
  · exact popFront_waitTask s

theorem release_waitTask (s : AsyncSemaphore K ε) : s.release.waitTask = s.waitTask := by
  unfold release
  split_ifs
  · rfl
  · rfl
  · exact popFront_waitTask s

/-- A permit cancels nobody. -/
theorem canceled_of_granted {waitTask : ℕ → TaskSharedState Unit ε} {i j : ℕ}
    (h : Function.update waitTask j granted i = canceledWait) : waitTask i = canceledWait := by
  by_cases hij : i = j
  · subst hij
    rw [Function.update_self] at h
    cases h
  · rwa [Function.update_of_ne hij] at h

theorem waitAsync_waitTask (k : Option K) {i : ℕ} (h : (s.waitAsync k).waitTask i = canceledWait) :
    s.waitTask i = canceledWait := by
  unfold waitAsync at h
  split_ifs at h
  · exact canceled_of_granted h
  · cases k <;> exact h

theorem trySetResult_waitTask (hsem : SemaphoreInv s) {i j : ℕ}
    (h : (s.trySetResult j).waitTask i = canceledWait) : s.waitTask i = canceledWait := by
  simp only [trySetResult, (hsem.isWaitTask j).exec_trySetResult] at h
  split_ifs at h with hst
  · exact canceled_of_granted h
  · rwa [Function.update_eq_self] at h

variable [DecidableEq K]

/-- `WaitAsync` cancels a call whose token is cancelled. -/
theorem advance_waitTask (hsem : SemaphoreInv s) (hs : s.advance = some s') {i : ℕ}
    (h : s'.waitTask i = canceledWait) : s.waitTask i = canceledWait ∨ s.Canceled := by
  cases advance_cases hs with
  | registerCanceled hc ht => exact .inr ⟨_, ht⟩
  | registerChecked | registered | emplaced => exact .inl h
  | popped hc =>
    rw [loopTest_waitTask] at h
    exact .inl (trySetResult_waitTask hsem h)
  | poppedRegistered hc => exact .inl (trySetResult_waitTask hsem h)
  | disposed hc =>
    rw [loopTest_waitTask, disposeRegistration_waitTask] at h
    exact .inl h

/-- So does the thread in `Cancel`. -/
theorem runCancel_waitTask (hcancel : CancelInv s) {k : K} (hs : s.runCancel k = some s') {i : ℕ}
    (h : s'.waitTask i = canceledWait) : s.waitTask i = canceledWait ∨ s.Canceled := by
  cases runCancel_cases hs with
  | moved | ended => exact .inl h
  | ran hk => exact .inr ⟨k, hcancel.canceling k (by rw [hk]; nofun)⟩

end AsyncSemaphore

/-- A wait task is cancelled, and a `TakeAsync` throws an `OperationCanceledException`, only
    after a token was cancelled. -/
structure CanceledInv {K α ε : Type*} (s : AsyncCollection K α ε) : Prop where
  waitTask : ∀ i, s.asyncSemaphore.waitTask i = canceledWait → s.asyncSemaphore.Canceled
  outcome : ∀ i, s.outcome i = some (.error .operationCanceled) → s.asyncSemaphore.Canceled

namespace CanceledInv

theorem init {K α ε : Type*} : CanceledInv ({} : AsyncCollection K α ε) where
  waitTask _ hi := by cases hi
  outcome _ hi := by cases hi

variable {K α ε : Type*} [DecidableEq K] {s s' : AsyncCollection K α ε} {a : CollectionLabel K α}

/-- A cancelled token stays cancelled. -/
theorem canceled_step (hs : s.step a = some s') (h : s.asyncSemaphore.Canceled) :
    s'.asyncSemaphore.Canceled := by
  obtain ⟨k, hk⟩ := h
  refine ⟨k, ?_⟩
  by_cases ha : ∃ j, a = .cancel j
  · obtain ⟨j, rfl⟩ := ha
    obtain ⟨t, ht, rfl⟩ := AsyncCollection.semaphoreStep_cases hs
    simp only [AsyncSemaphore.step] at ht
    split_ifs at ht <;> cases ht
    · exact hk
    · show (Function.update s.asyncSemaphore.token j _ k).isCanceled
      by_cases hkj : k = j
      · subst hkj
        rw [Function.update_self]
      · rwa [Function.update_of_ne hkj]
  · rw [AsyncCollection.step_isCanceled (fun j hj => ha ⟨j, hj⟩) hs]
    exact hk

/-- The queue takes a step in which no `TakeAsync` ends. -/
theorem semaphore_step (h : CanceledInv s) (hs : s.step a = some s')
    (hout : s'.outcome = s.outcome)
    (htask : ∀ i, s'.asyncSemaphore.waitTask i = canceledWait →
      s.asyncSemaphore.waitTask i = canceledWait ∨ s.asyncSemaphore.Canceled) :
    CanceledInv s' := by
  refine ⟨fun i hi => canceled_step hs ?_, fun i hi => canceled_step hs ?_⟩
  · exact (htask i hi).elim (h.waitTask i) id
  · rw [hout] at hi
    exact h.outcome i hi

/-- A `TakeAsync` throws what its wait task holds, or finds no item. -/
theorem resume (h : CanceledInv s) (hsem : SemaphoreInv s.asyncSemaphore) {i : ℕ}
    (hs : s.step (.resume i) = some s') : CanceledInv s' := by
  have hkeep : ∀ r : Except (Exn ε) α,
      (r = .error .operationCanceled → s.asyncSemaphore.Canceled) → ∀ j,
        Function.update s.outcome i (some r) j = some (.error .operationCanceled) →
          s.asyncSemaphore.Canceled := by
    intro r hr j hj
    by_cases hji : j = i
    · subst hji
      rw [Function.update_self] at hj
      exact hr (Option.some.inj hj)
    · rw [Function.update_of_ne hji] at hj
      exact h.outcome j hj
  simp only [AsyncCollection.step] at hs
  split_ifs at hs with hen
  cases hs
  rcases hsem.isWaitTask i with hst | hst | hst
  · rw [hst] at hen
    cases hen.1
  · have hwait : (granted : TaskSharedState Unit ε).waitOutcome = .ok () := rfl
    cases hx : s.innerCollection with
    | nil =>
      simp only [AsyncCollection.resume, hst, hwait, hx]
      exact ⟨h.waitTask, hkeep _ fun he => by cases he⟩
    | cons x xs =>
      simp only [AsyncCollection.resume, hst, hwait, hx]
      exact ⟨h.waitTask, hkeep _ fun he => by cases he⟩
  · have hwait : (canceledWait : TaskSharedState Unit ε).waitOutcome =
        .error (some .operationCanceled) := rfl
    simp only [AsyncCollection.resume, hst, hwait]
    exact ⟨h.waitTask, hkeep _ fun _ => h.waitTask i hst⟩

theorem step (h : CanceledInv s) (hsem : SemaphoreInv s.asyncSemaphore)
    (hcancel : CancelInv s.asyncSemaphore) (hs : s.step a = some s') : CanceledInv s' := by
  have hstep := hs
  cases a with
  | push item | tryTakeAll =>
    cases hs
    exact ⟨h.waitTask, h.outcome⟩
  | resume i => exact h.resume hsem hs
  | release =>
    simp only [AsyncCollection.step] at hs
    split_ifs at hs
    obtain ⟨t, ht, rfl⟩ := AsyncCollection.semaphoreStep_cases hs
    simp only [AsyncSemaphore.step] at ht
    split at ht <;> cases ht
    refine h.semaphore_step hstep rfl fun i hi => .inl ?_
    rwa [AsyncSemaphore.release_waitTask] at hi
  | takeAsync k =>
    obtain ⟨t, ht, rfl⟩ := AsyncCollection.semaphoreStep_cases hs
    simp only [AsyncSemaphore.step] at ht
    split at ht <;> cases ht
    exact h.semaphore_step hstep rfl fun i hi => .inl (AsyncSemaphore.waitAsync_waitTask k hi)
  | advance =>
    obtain ⟨t, ht, rfl⟩ := AsyncCollection.semaphoreStep_cases hs
    exact h.semaphore_step hstep rfl fun i hi => AsyncSemaphore.advance_waitTask hsem ht hi
  | cancel k =>
    obtain ⟨t, ht, rfl⟩ := AsyncCollection.semaphoreStep_cases hs
    refine h.semaphore_step hstep rfl fun i hi => .inl ?_
    simp only [AsyncSemaphore.step] at ht
    split_ifs at ht <;> cases ht <;> exact hi
  | runCancel k =>
    obtain ⟨t, ht, rfl⟩ := AsyncCollection.semaphoreStep_cases hs
    exact h.semaphore_step hstep rfl fun i hi => AsyncSemaphore.runCancel_waitTask hcancel ht hi

end CanceledInv

end AsyncCpp.AsyncPrimitives
