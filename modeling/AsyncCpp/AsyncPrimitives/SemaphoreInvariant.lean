import AsyncCpp.AsyncPrimitives.AsyncSemaphore

/-!
# The invariant of `AsyncSemaphore`

A cancelled waiter stays in `_waiters` until a `Release` pops it, so the queue says
nothing about how many callers wait. What relates the queue, the counter and the
wait tasks is: every pending wait task is in the queue or in the hands of the thread
in the critical section, and as long as anything is queued or that thread is at work
the counter is `0`.

Results:
* `reachable_semaphoreInv`: the invariant holds in every reachable state.
* `semaphore_conservation`: bounds, conservation of permits, and no stranded permit.
-/

namespace AsyncCpp.AsyncPrimitives

open Interleaving Tasks

variable {K ε : Type*}

/-! ## The branches of a step -/

namespace AsyncSemaphore

section Branches

variable [DecidableEq K] {s s' : AsyncSemaphore K ε}

/-- What the holder of `_waitersLock` does when it goes on. -/
inductive AdvanceStep (s : AsyncSemaphore K ε) : AsyncSemaphore K ε → Prop
  | registerCanceled {i : ℕ} {k : K} (hc : s.critical = .registering i k)
    (ht : (s.token k).isCanceled = true) :
    AdvanceStep s { s.trySetCanceled i with critical := .emplacing i (some .empty) }
  | registerChecked {i : ℕ} {k : K} (hc : s.critical = .registering i k)
    (ht : (s.token k).isCanceled = false) :
    AdvanceStep s { s with critical := .registerChecked i k }
  | registered {i : ℕ} {k : K} (hc : s.critical = .registerChecked i k) :
    AdvanceStep s { s.setToken k ((s.token k).pushAction i).2 with
      critical := .emplacing i (some (.remove k ((s.token k).pushAction i).1)) }
  | emplaced {i : ℕ} {r : Option (CancellationRegistration K)}
    (hc : s.critical = .emplacing i r) :
    AdvanceStep s { s with waiters := s.waiters ++ [(i, r)], critical := .free }
  | popped {i : ℕ} (hc : s.critical = .popped i none) :
    AdvanceStep s
      ((s.trySetResult i).loopTest (decide ((s.waitTask i).state = .created)))
  | poppedRegistered {i : ℕ} {r : CancellationRegistration K}
    (hc : s.critical = .popped i (some r)) :
    AdvanceStep s { s.trySetResult i with
      critical := .disposing r (decide ((s.waitTask i).state = .created)) }
  | disposed {r : CancellationRegistration K} {waiterReleased : Bool}
    (hc : s.critical = .disposing r waiterReleased) :
    AdvanceStep s ((s.disposeRegistration r).loopTest waiterReleased)

theorem advance_cases (hs : s.advance = some s') : AdvanceStep s s' := by
  unfold advance at hs
  split at hs
  case h_1 => cases hs
  case h_2 i k hc =>
    split_ifs at hs with ht <;> cases hs
    · exact .registerCanceled hc ht
    · exact .registerChecked hc (Bool.eq_false_iff.mpr ht)
  case h_3 i k hc => cases hs; exact .registered hc
  case h_4 i r hc => cases hs; exact .emplaced hc
  case h_5 i r hc =>
    cases r with
    | none => cases hs; exact .popped hc
    | some r => cases hs; exact .poppedRegistered hc
  case h_6 r waiterReleased hc => cases hs; exact .disposed hc

/-- What the `Cancel` call that cancelled token `k` does when it goes on. -/
inductive RunCancelStep (s : AsyncSemaphore K ε) (k : K) : AsyncSemaphore K ε → Prop
  | moved (hk : s.canceling k = .exchanged) (hfree : s.cancelActionsMutexFree k) :
    RunCancelStep s k { s.setToken k (s.token k).moveActions.2 with
      canceling := Function.update s.canceling k (.running (s.token k).moveActions.1) }
  | ended (hk : s.canceling k = .running []) :
    RunCancelStep s k { s with canceling := Function.update s.canceling k .idle }
  | ran {i : ℕ} {is : List ℕ} (hk : s.canceling k = .running (i :: is)) :
    RunCancelStep s k { s.trySetCanceled i with
      canceling := Function.update s.canceling k (.running is) }

theorem runCancel_cases {k : K} (hs : s.runCancel k = some s') : RunCancelStep s k s' := by
  unfold runCancel at hs
  split at hs
  case h_1 => cases hs
  case h_2 hk =>
    split_ifs at hs with hfree
    cases hs
    exact .moved hk hfree
  case h_3 hk => cases hs; exact .ended hk
  case h_4 i is hk => cases hs; exact .ran hk

end Branches

end AsyncSemaphore

/-! ## Wait tasks -/

/-- The states of a wait task: pending, granted, cancelled. -/
def IsWaitTask (t : TaskSharedState Unit ε) : Prop := t = {} ∨ t = granted ∨ t = canceledWait

theorem IsWaitTask.exec_trySetResult {t : TaskSharedState Unit ε} (h : IsWaitTask t) :
    t.exec (.trySetResult ()) = if t.state = .created then granted else t := by
  rcases h with rfl | rfl | rfl <;> rfl

theorem IsWaitTask.exec_trySetException {t : TaskSharedState Unit ε} (h : IsWaitTask t) :
    t.exec (.trySetException (some .operationCanceled)) =
      if t.state = .created then canceledWait else t := by
  rcases h with rfl | rfl | rfl <;> rfl

theorem IsWaitTask.completed {t : TaskSharedState Unit ε} (h : IsWaitTask t)
    (hne : t.state ≠ .created) : t.state.isCompleted := by
  rcases h with rfl | rfl | rfl
  · exact absurd rfl hne
  · rfl
  · rfl

/-- The wait task the thread in the critical section has in its hands. -/
def Critical.waiter : Critical K → List ℕ
  | .registering i _ | .registerChecked i _ | .emplacing i _ | .popped i _ => [i]
  | .free | .disposing _ _ => []

/-- `Release` has granted a wait task and not returned yet. -/
def Critical.grantedOne : Critical K → ℕ
  | .disposing _ true => 1
  | _ => 0

/-- The thread in the critical section is in the loop of `Release`. -/
def Critical.inRelease : Critical K → Bool
  | .popped _ _ | .disposing _ _ => true
  | _ => false

namespace AsyncSemaphore

/-- The wait tasks that can still be granted: the one in hand, then the queue. -/
def queued (s : AsyncSemaphore K ε) : List ℕ := s.critical.waiter ++ s.waiters.map Prod.fst

/-- The number of wait tasks that completed with a result. -/
def grants (s : AsyncSemaphore K ε) : ℕ :=
  Nat.count (fun i => (s.waitTask i).state = .runToCompletion) s.issued

/-- The wait task `i` becomes `t`. -/
theorem grants_update (s : AsyncSemaphore K ε) {i : ℕ} (hi : i < s.issued)
    (t : TaskSharedState Unit ε) :
    ({ s with waitTask := Function.update s.waitTask i t } : AsyncSemaphore K ε).grants +
        (if (s.waitTask i).state = .runToCompletion then 1 else 0) =
      s.grants + if t.state = .runToCompletion then 1 else 0 :=
  count_update (Q := fun t : TaskSharedState Unit ε => t.state = .runToCompletion) hi

/-- One more wait task is issued, as `t`. -/
theorem grants_issue (s : AsyncSemaphore K ε) (t : TaskSharedState Unit ε) :
    ({ s with issued := s.issued + 1, waitTask := Function.update s.waitTask s.issued t } :
        AsyncSemaphore K ε).grants =
      s.grants + if t.state = .runToCompletion then 1 else 0 := by
  have hsucc := Nat.count_succ (fun i =>
    (Function.update s.waitTask s.issued t i).state = .runToCompletion) s.issued
  rw [count_update_of_le (Q := fun t : TaskSharedState Unit ε => t.state = .runToCompletion) le_rfl,
    Function.update_self] at hsucc
  exact hsucc

end AsyncSemaphore

/-- The actions a `Cancel` call has still to run. -/
def CancelPhase.actions : CancelPhase → List ℕ
  | .running is => is
  | .idle | .exchanged => []

structure SemaphoreInv (s : AsyncSemaphore K ε) : Prop where
  count : 0 ≤ s.currentCount ∧ s.currentCount ≤ s.maxCount
  conserve : s.currentCount + s.grants = s.initialCount + s.released + s.critical.grantedOne
  isWaitTask : ∀ i, IsWaitTask (s.waitTask i)
  fresh : ∀ i, s.issued ≤ i → s.waitTask i = {}
  queuedIssued : ∀ i ∈ s.queued, i < s.issued
  actionsIssued : ∀ k, (∀ p ∈ (s.token k).cancelActions, p.2 < s.issued) ∧
    ∀ i ∈ (s.canceling k).actions, i < s.issued
  pending : ∀ i < s.issued, (s.waitTask i).state = .created → i ∈ s.queued
  zero : s.waiters ≠ [] ∨ s.critical ≠ .free → s.currentCount = 0
  releasing : s.critical.inRelease → 0 < s.maxCount

namespace SemaphoreInv

variable {s s' : AsyncSemaphore K ε} {i : ℕ}

/-! ## Completing a wait task -/

/-- Cancelling a wait task that was issued keeps the invariant. -/
theorem trySetCanceled (h : SemaphoreInv s) (hi : i < s.issued) :
    SemaphoreInv (s.trySetCanceled i) := by
  have hexec := (h.isWaitTask i).exec_trySetException
  refine { h with conserve := ?_, isWaitTask := ?_, fresh := ?_, pending := ?_ }
  · have hcount : (s.trySetCanceled i).grants + _ = s.grants + _ := s.grants_update hi _
    have hgrants : (s.trySetCanceled i).grants = s.grants := by
      rw [hexec] at hcount
      by_cases hst : (s.waitTask i).state = .created
      · simpa only [hst, canceledWait, TaskSharedState.ended, reduceCtorEq, if_true, if_false,
          Nat.add_zero] using hcount
      · rw [if_neg hst] at hcount
        exact Nat.add_right_cancel hcount
    rw [hgrants]
    exact h.conserve
  · intro j
    by_cases hj : j = i
    · subst hj
      simp only [AsyncSemaphore.trySetCanceled, Function.update_self, hexec]
      split
      · exact .inr (.inr rfl)
      · exact h.isWaitTask j
    · simpa [Function.update_of_ne hj] using h.isWaitTask j
  · intro j hj
    have hne : j ≠ i := by
      rintro rfl
      exact absurd hi (Nat.not_lt.mpr hj)
    simpa [Function.update_of_ne hne] using h.fresh j hj
  · intro j hj hst
    refine h.pending j hj ?_
    by_cases hji : j = i
    · subst hji
      simp only [AsyncSemaphore.trySetCanceled, Function.update_self, hexec] at hst
      split at hst
      · assumption
      · exact hst
    · simpa [Function.update_of_ne hji] using hst

/-- `Release` tries to grant the waiter it popped. -/
theorem popped_step (h : SemaphoreInv s) {r : Option (CancellationRegistration K)}
    (hc : s.critical = .popped i r) (r' : CancellationRegistration K) :
    SemaphoreInv { s.trySetResult i with
      critical := .disposing r' ((s.waitTask i).state = .created) } := by
  have hi : i < s.issued := h.queuedIssued i (by simp [AsyncSemaphore.queued, hc, Critical.waiter])
  have hexec := (h.isWaitTask i).exec_trySetResult
  have hzero : s.currentCount = 0 := h.zero (.inr (by rw [hc]; nofun))
  refine { h with
    conserve := ?_, isWaitTask := ?_, fresh := ?_, queuedIssued := ?_, pending := ?_,
    zero := fun _ => hzero, releasing := fun _ => h.releasing (by rw [hc]; rfl) }
  · have hcount : (s.trySetResult i).grants + _ = s.grants + _ := s.grants_update hi _
    have hcons := h.conserve
    rw [hc] at hcons
    show s.currentCount + (s.trySetResult i).grants = s.initialCount + s.released +
      (Critical.disposing r' (decide ((s.waitTask i).state = .created))).grantedOne
    simp only [Critical.grantedOne] at hcons ⊢
    rw [hexec] at hcount
    by_cases hst : (s.waitTask i).state = .created
    · simp only [hst, granted, TaskSharedState.ended, if_true, decide_true] at hcount ⊢
      simp only [reduceCtorEq, if_false] at hcount
      omega
    · simp only [hst, if_false, decide_false] at hcount ⊢
      omega
  · intro j
    by_cases hj : j = i
    · subst hj
      simp only [AsyncSemaphore.trySetResult, Function.update_self, hexec]
      split
      · exact .inr (.inl rfl)
      · exact h.isWaitTask j
    · simpa [Function.update_of_ne hj] using h.isWaitTask j
  · intro j hj
    have hne : j ≠ i := by
      rintro rfl
      exact absurd hi (Nat.not_lt.mpr hj)
    simpa [Function.update_of_ne hne] using h.fresh j hj
  · intro j hj
    refine h.queuedIssued j ?_
    simp only [AsyncSemaphore.queued, hc, Critical.waiter] at hj ⊢
    exact List.mem_append.mpr (.inr (by simpa using hj))
  · intro j hj hst
    have hne : j ≠ i := by
      rintro rfl
      simp only [AsyncSemaphore.trySetResult, Function.update_self, hexec] at hst
      split at hst
      · cases hst
      · contradiction
    have hq := h.pending j hj (by simpa [Function.update_of_ne hne] using hst)
    simpa [AsyncSemaphore.queued, hc, Critical.waiter, hne] using hq

/-! ## The loop of `Release` -/

/-- A waiter moves from the front of the queue to the thread in the critical section. -/
theorem popFront (h : SemaphoreInv s) (hw : s.waiters ≠ []) (hc : s.critical.waiter = [])
    (hg : s.critical.grantedOne = 0) (hmax : 0 < s.maxCount) : SemaphoreInv s.popFront := by
  have hzero := h.zero (.inl hw)
  obtain ⟨⟨i, r⟩, ws, hws⟩ := List.exists_cons_of_ne_nil hw
  have hqueued : s.popFront.queued = s.queued := by
    simp only [AsyncSemaphore.popFront, AsyncSemaphore.queued, hws]
    rw [hc]
    rfl
  have hpending := h.pending
  have hissued := h.queuedIssued
  have hcons := h.conserve
  rw [← hqueued] at hpending hissued
  rw [hg] at hcons
  simp only [AsyncSemaphore.popFront, hws] at hpending hissued ⊢
  exact { h with
    conserve := hcons, queuedIssued := hissued, pending := hpending, zero := fun _ => hzero,
    releasing := fun _ => hmax }

theorem loopTest (h : SemaphoreInv s) {r : CancellationRegistration K} {waiterReleased : Bool}
    (hc : s.critical = .disposing r waiterReleased) : SemaphoreInv (s.loopTest waiterReleased) := by
  have hzero : s.currentCount = 0 := h.zero (.inr (by rw [hc]; simp))
  have hmax : 0 < s.maxCount := h.releasing (by rw [hc]; rfl)
  have hcons := h.conserve
  have hissued := h.queuedIssued
  have hpending := h.pending
  simp only [AsyncSemaphore.queued, hc, Critical.waiter] at hissued hpending
  rw [hc] at hcons
  unfold AsyncSemaphore.loopTest
  cases waiterReleased with
  | true =>
    rw [if_pos rfl]
    refine { h with
      conserve := ?_, queuedIssued := hissued, pending := hpending, zero := fun _ => hzero,
      releasing := fun hr => by cases hr }
    simp only [Critical.grantedOne, AsyncSemaphore.grants] at hcons ⊢
    omega
  | false =>
    rw [if_neg Bool.false_ne_true]
    split
    · rename_i hempty
      have hnil : s.waiters = [] := List.isEmpty_iff.mp hempty
      refine { h with
        count := ?_, conserve := ?_, queuedIssued := hissued, pending := hpending, zero := ?_,
        releasing := fun hr => by cases hr }
      · constructor <;> dsimp only <;> omega
      · simp only [Critical.grantedOne, AsyncSemaphore.grants] at hcons ⊢
        omega
      · rintro (hw | hw)
        · exact absurd hnil hw
        · exact absurd rfl hw
    · rename_i hne
      refine h.popFront (fun hnil => hne (List.isEmpty_iff.mpr hnil)) (by rw [hc]; rfl)
        (by rw [hc]; rfl) hmax

end SemaphoreInv

/-- The loop test does not depend on where the thread was. -/
theorem loopTest_critical (s : AsyncSemaphore K ε) (c : Critical K) (waiterReleased : Bool) :
    ({ s with critical := c } : AsyncSemaphore K ε).loopTest waiterReleased =
      s.loopTest waiterReleased := by
  unfold AsyncSemaphore.loopTest AsyncSemaphore.popFront
  split_ifs with h1 h2
  · rfl
  · rfl
  · cases hw : s.waiters with
    | nil => simp [hw] at h2
    | cons w ws => rfl

namespace SemaphoreInv

variable {s s' : AsyncSemaphore K ε} {i : ℕ}

/-! ## Entering a critical section -/

theorem release (h : SemaphoreInv s) (hc : s.critical = .free) : SemaphoreInv s.release := by
  have hcons := h.conserve
  rw [hc] at hcons
  unfold AsyncSemaphore.release
  split_ifs with hfull hempty
  · exact { h with }
  · have hnil : s.waiters = [] := List.isEmpty_iff.mp hempty
    have hcount := h.count
    refine { h with count := ?_, conserve := ?_, zero := ?_ }
    · constructor <;> dsimp only <;> omega
    · simp only [hc, Critical.grantedOne, AsyncSemaphore.grants] at hcons ⊢
      push_cast
      omega
    · rintro (hw | hw)
      · exact absurd hnil hw
      · exact absurd hc hw
  · have hne : s.waiters ≠ [] := fun hnil => hempty (List.isEmpty_iff.mpr hnil)
    have hzero := h.zero (.inl hne)
    have hcount := h.count
    exact h.popFront hne (by rw [hc]; rfl) (by rw [hc]; rfl) (by omega)

theorem waitAsync (h : SemaphoreInv s) (hc : s.critical = .free) (k : Option K) :
    SemaphoreInv (s.waitAsync k) := by
  have hcount := h.count
  have hcons := h.conserve
  have hissued := h.queuedIssued
  have hpending := h.pending
  rw [hc] at hcons
  simp only [AsyncSemaphore.queued, hc, Critical.waiter, List.nil_append] at hissued hpending
  have hfresh := h.fresh s.issued le_rfl
  have hactions : ∀ k, (∀ p ∈ (s.token k).cancelActions, p.2 < s.issued + 1) ∧
      ∀ i ∈ (s.canceling k).actions, i < s.issued + 1 := fun k =>
    ⟨fun p hp => Nat.lt_succ_of_lt ((h.actionsIssued k).1 p hp),
      fun i hi => Nat.lt_succ_of_lt ((h.actionsIssued k).2 i hi)⟩
  unfold AsyncSemaphore.waitAsync
  split_ifs with hpos
  · -- a free permit: nobody is queued and the new wait task is complete
    have hnil : s.waiters = [] := by
      by_contra hne
      have := h.zero (.inl hne)
      omega
    refine { h with
      count := ?_, conserve := ?_, isWaitTask := ?_, fresh := ?_, queuedIssued := ?_,
      actionsIssued := hactions, pending := ?_, zero := ?_ }
    · constructor <;> dsimp only <;> omega
    · have hgrants := s.grants_issue granted
      rw [if_pos (by rfl)] at hgrants
      simp only [hc, Critical.grantedOne] at hcons ⊢
      show s.currentCount - 1 + (AsyncSemaphore.grants { s with
        issued := s.issued + 1, waitTask := Function.update s.waitTask s.issued granted } : ℕ) = _
      rw [hgrants]
      push_cast
      omega
    · intro j
      by_cases hj : j = s.issued
      · subst hj
        exact .inr (.inl (by simp))
      · simpa [Function.update_of_ne hj] using h.isWaitTask j
    · intro j hj
      have hj : s.issued + 1 ≤ j := hj
      simpa [Function.update_of_ne (show j ≠ s.issued by omega)] using h.fresh j (by omega)
    · intro j hj
      simp [AsyncSemaphore.queued, hc, hnil, Critical.waiter] at hj
    · intro j hj hst
      have hj : j < s.issued + 1 := hj
      have hne : j ≠ s.issued := by
        rintro rfl
        simp [granted, TaskSharedState.ended] at hst
      have := hpending j (by omega) (by simpa [Function.update_of_ne hne] using hst)
      simp [hnil] at this
    · rintro (hw | hw)
      · exact absurd hnil hw
      · exact absurd hc hw
  · -- no permit: the new wait task is in the hands of the caller
    have hzero : s.currentCount = 0 := by omega
    have hnew : ∀ c : Critical K, c.waiter = [s.issued] → c.grantedOne = 0 →
        c.inRelease = false →
        SemaphoreInv { s with issued := s.issued + 1, critical := c } := by
      intro c hw hg hr
      refine { h with
        conserve := ?_, fresh := ?_, queuedIssued := ?_, actionsIssued := hactions, pending := ?_,
        zero := fun _ => hzero, releasing := fun hr' => ?_ }
      · have h1 := Nat.count_succ (fun i => (s.waitTask i).state = .runToCompletion) s.issued
        rw [hfresh] at h1
        simp only [AsyncSemaphore.grants, hg] at hcons ⊢
        rw [h1]
        simpa [Critical.grantedOne] using hcons
      · intro j hj
        have hj : s.issued + 1 ≤ j := hj
        exact h.fresh j (by omega)
      · intro j hj
        simp only [AsyncSemaphore.queued, hw, List.mem_append, List.mem_singleton] at hj
        rcases hj with rfl | hj
        · exact Nat.lt_succ_self _
        · exact Nat.lt_succ_of_lt (hissued j hj)
      · intro j hj hst
        simp only [AsyncSemaphore.queued, hw, List.mem_append, List.mem_singleton]
        rcases Nat.lt_succ_iff_lt_or_eq.mp hj with hj | hj
        · exact .inr (hpending j hj hst)
        · exact .inl hj
      · rw [hr] at hr'
        cases hr'
    cases k with
    | none => exact hnew _ rfl rfl rfl
    | some k => exact hnew _ rfl rfl rfl

/-! ## Going on -/

/-- The wait task in hand stays in hand, or moves to the end of the queue. -/
theorem hold_step (h : SemaphoreInv s) {c : Critical K} (hw : c.waiter = s.critical.waiter)
    (hg : c.grantedOne = s.critical.grantedOne) (hr : c.inRelease = s.critical.inRelease)
    (hzero : s.currentCount = 0) : SemaphoreInv { s with critical := c } := by
  have hcons := h.conserve
  have hissued := h.queuedIssued
  have hpending := h.pending
  simp only [AsyncSemaphore.queued, ← hw] at hissued hpending
  exact { h with
    conserve := by rw [← hg] at hcons; exact hcons
    queuedIssued := hissued, pending := hpending, zero := fun _ => hzero
    releasing := fun hr' => h.releasing (by rw [← hr]; exact hr') }

variable [DecidableEq K]

/-- Only the actions stored for one token change, and they belong to issued wait tasks. -/
theorem setToken (h : SemaphoreInv s) {k : K} {t : CtsSharedState ℕ}
    (ht : ∀ p ∈ t.cancelActions, p.2 < s.issued) : SemaphoreInv (s.setToken k t) := by
  refine { h with actionsIssued := fun j => ⟨?_, (h.actionsIssued j).2⟩ }
  by_cases hj : j = k
  · subst hj
    simpa using ht
  · simpa [Function.update_of_ne hj] using (h.actionsIssued j).1

theorem setCanceling (h : SemaphoreInv s) {k : K} {p : CancelPhase}
    (hp : ∀ i ∈ p.actions, i < s.issued) :
    SemaphoreInv { s with canceling := Function.update s.canceling k p } := by
  refine { h with actionsIssued := fun j => ⟨(h.actionsIssued j).1, ?_⟩ }
  by_cases hj : j = k
  · subst hj
    simpa using hp
  · simpa [Function.update_of_ne hj] using (h.actionsIssued j).2

theorem disposeRegistration (h : SemaphoreInv s) (r : CancellationRegistration K) :
    SemaphoreInv (s.disposeRegistration r) := by
  cases r with
  | empty => exact h
  | remove k id =>
    exact h.setToken fun p hp => (h.actionsIssued k).1 p (CtsSharedState.mem_removeCancellation hp)

theorem advance (h : SemaphoreInv s) (hs : s.advance = some s') : SemaphoreInv s' := by
  have hzero : s.critical ≠ .free → s.currentCount = 0 := fun hne => h.zero (.inr hne)
  cases AsyncSemaphore.advance_cases hs with
  | @registerCanceled i k hc ht =>
    have hi : i < s.issued :=
      h.queuedIssued i (by simp [AsyncSemaphore.queued, hc, Critical.waiter])
    exact (h.trySetCanceled hi).hold_step (by simp [hc, Critical.waiter])
      (by simp [hc, Critical.grantedOne]) (by simp [hc, Critical.inRelease])
      (hzero (by rw [hc]; nofun))
  | registerChecked hc ht =>
    exact h.hold_step (by rw [hc]; rfl) (by rw [hc]; rfl) (by rw [hc]; rfl)
      (hzero (by rw [hc]; nofun))
  | @registered i k hc =>
    have hi : i < s.issued :=
      h.queuedIssued i (by simp [AsyncSemaphore.queued, hc, Critical.waiter])
    have ht : ∀ p ∈ ((s.token k).pushAction i).2.cancelActions, p.2 < s.issued := by
      intro p hp
      rcases CtsSharedState.mem_pushAction hp with hp | hp
      · exact (h.actionsIssued k).1 p hp
      · rwa [hp]
    exact (h.setToken ht).hold_step (by simp [hc, Critical.waiter])
      (by simp [hc, Critical.grantedOne]) (by simp [hc, Critical.inRelease])
      (hzero (by rw [hc]; nofun))
  | @emplaced i r hc =>
    have hmem : ∀ j, j ∈ s.waiters.map Prod.fst ++ [i] ↔ j ∈ s.queued := by
      intro j
      simp [AsyncSemaphore.queued, hc, Critical.waiter, or_comm]
    have hcons := h.conserve
    rw [hc] at hcons
    refine { h with
      conserve := hcons, queuedIssued := ?_, pending := ?_
      zero := fun _ => hzero (by rw [hc]; nofun), releasing := nofun }
    · intro j hj
      exact h.queuedIssued j
        ((hmem j).mp (by simpa [AsyncSemaphore.queued, Critical.waiter] using hj))
    · intro j hj hst
      simpa [AsyncSemaphore.queued, Critical.waiter] using (hmem j).mpr (h.pending j hj hst)
  | popped hc =>
    rw [← loopTest_critical _ (.disposing .empty _)]
    exact (h.popped_step hc .empty).loopTest rfl
  | @poppedRegistered i r hc => exact h.popped_step hc r
  | @disposed r waiterReleased hc =>
    refine (h.disposeRegistration r).loopTest (r := r) ?_
    cases r <;> exact hc

theorem runCancel (h : SemaphoreInv s) {k : K} (hs : s.runCancel k = some s') :
    SemaphoreInv s' := by
  have hactions := h.actionsIssued k
  cases AsyncSemaphore.runCancel_cases hs with
  | moved hk =>
    refine SemaphoreInv.setCanceling (h.setToken (by simp [CtsSharedState.moveActions])) ?_
    intro i hi
    obtain ⟨p, hp, rfl⟩ := List.mem_map.mp hi
    exact hactions.1 p hp
  | ended hk => exact h.setCanceling nofun
  | @ran i is hk =>
    rw [hk] at hactions
    exact (h.trySetCanceled (hactions.2 i List.mem_cons_self)).setCanceling
      fun j hj => hactions.2 j (List.mem_cons_of_mem _ hj)

end SemaphoreInv

/-! ## What no step undoes -/

/-- `s'` is a later state: the constants are the same, and a wait task that was complete has
    the same outcome. -/
structure Later (s s' : AsyncSemaphore K ε) : Prop where
  maxCount : s'.maxCount = s.maxCount
  initialCount : s'.initialCount = s.initialCount
  issued : s.issued ≤ s'.issued
  kept : ∀ i, (s.waitTask i).state ≠ .created → s'.waitTask i = s.waitTask i

theorem exec_trySet_of_completed {t : TaskSharedState Unit ε} (h : t.state ≠ .created) :
    t.exec (.trySetResult ()) = t ∧ t.exec (.trySetException (some .operationCanceled)) = t := by
  constructor <;> simp [TaskSharedState.exec, SetCall.apply, h]

namespace Later

variable {s s' s'' : AsyncSemaphore K ε} {i : ℕ}

theorem refl (s : AsyncSemaphore K ε) : Later s s := ⟨rfl, rfl, le_rfl, fun _ _ => rfl⟩

theorem trans (h : Later s s') (h' : Later s' s'') : Later s s'' where
  maxCount := h'.maxCount.trans h.maxCount
  initialCount := h'.initialCount.trans h.initialCount
  issued := h.issued.trans h'.issued
  kept := by
    intro i hi
    have h1 := h.kept i hi
    rw [h'.kept i (by rwa [h1]), h1]

/-- One wait task is completed with a result or an exception, if it is not complete. -/
theorem update (h1 : s'.maxCount = s.maxCount) (h2 : s'.initialCount = s.initialCount)
    (h3 : s.issued ≤ s'.issued) {t : TaskSharedState Unit ε}
    (h4 : s'.waitTask = Function.update s.waitTask i t)
    (ht : (s.waitTask i).state ≠ .created → t = s.waitTask i) : Later s s' := by
  refine ⟨h1, h2, h3, fun j hj => ?_⟩
  rw [h4]
  by_cases hji : j = i
  · subst hji
    rw [Function.update_self, ht hj]
  · rw [Function.update_of_ne hji]

theorem trySetResult (s : AsyncSemaphore K ε) (i : ℕ) : Later s (s.trySetResult i) :=
  update rfl rfl le_rfl rfl fun h => (exec_trySet_of_completed h).1

theorem trySetCanceled (s : AsyncSemaphore K ε) (i : ℕ) : Later s (s.trySetCanceled i) :=
  update rfl rfl le_rfl rfl fun h => (exec_trySet_of_completed h).2

theorem popFront (s : AsyncSemaphore K ε) : Later s s.popFront := by
  unfold AsyncSemaphore.popFront
  split
  · exact refl s
  · exact ⟨rfl, rfl, le_rfl, fun _ _ => rfl⟩

theorem loopTest (s : AsyncSemaphore K ε) (waiterReleased : Bool) :
    Later s (s.loopTest waiterReleased) := by
  unfold AsyncSemaphore.loopTest
  split_ifs
  · exact ⟨rfl, rfl, le_rfl, fun _ _ => rfl⟩
  · exact ⟨rfl, rfl, le_rfl, fun _ _ => rfl⟩
  · exact popFront s

theorem release (s : AsyncSemaphore K ε) : Later s s.release := by
  unfold AsyncSemaphore.release
  split_ifs
  · exact ⟨rfl, rfl, le_rfl, fun _ _ => rfl⟩
  · exact ⟨rfl, rfl, le_rfl, fun _ _ => rfl⟩
  · exact popFront s

theorem waitAsync (h : SemaphoreInv s) (k : Option K) : Later s (s.waitAsync k) := by
  have hfresh := h.fresh s.issued le_rfl
  unfold AsyncSemaphore.waitAsync
  split_ifs
  · exact update rfl rfl (Nat.le_succ _) rfl fun hne => absurd (by rw [hfresh]) hne
  · cases k with
    | none | some k => exact ⟨rfl, rfl, Nat.le_succ _, fun _ _ => rfl⟩

variable [DecidableEq K]

theorem disposeRegistration (s : AsyncSemaphore K ε) (r : CancellationRegistration K) :
    Later s (s.disposeRegistration r) := by
  cases r with
  | empty => exact refl s
  | remove k id => exact ⟨rfl, rfl, le_rfl, fun _ _ => rfl⟩

theorem advance (hs : s.advance = some s') : Later s s' := by
  cases AsyncSemaphore.advance_cases hs with
  | @registerCanceled i => exact (trySetCanceled s i).trans ⟨rfl, rfl, le_rfl, fun _ _ => rfl⟩
  | registerChecked | registered | emplaced => exact ⟨rfl, rfl, le_rfl, fun _ _ => rfl⟩
  | @popped i => exact (trySetResult s i).trans (loopTest _ _)
  | @poppedRegistered i => exact (trySetResult s i).trans ⟨rfl, rfl, le_rfl, fun _ _ => rfl⟩
  | @disposed r => exact (disposeRegistration s r).trans (loopTest _ _)

theorem runCancel {k : K} (hs : s.runCancel k = some s') : Later s s' := by
  cases AsyncSemaphore.runCancel_cases hs with
  | moved | ended => exact ⟨rfl, rfl, le_rfl, fun _ _ => rfl⟩
  | @ran i => exact (trySetCanceled s i).trans ⟨rfl, rfl, le_rfl, fun _ _ => rfl⟩

end Later

/-! ## `Dispose` -/

section Dispose

variable [DecidableEq K] {s : AsyncSemaphore K ε}

theorem disposeWaiter_eq (s : AsyncSemaphore K ε) (w : ℕ × Option (CancellationRegistration K)) :
    s.disposeWaiter w = (s.trySetCanceled w.1).disposeRegistration (w.2.getD .empty) := by
  cases hw : w.2 <;> simp [AsyncSemaphore.disposeWaiter, hw, AsyncSemaphore.disposeRegistration]

@[simp] theorem disposeRegistration_waitTask (s : AsyncSemaphore K ε)
    (r : CancellationRegistration K) : (s.disposeRegistration r).waitTask = s.waitTask := by
  cases r <;> rfl

@[simp] theorem disposeRegistration_issued (s : AsyncSemaphore K ε)
    (r : CancellationRegistration K) : (s.disposeRegistration r).issued = s.issued := by
  cases r <;> rfl

@[simp] theorem disposeRegistration_critical (s : AsyncSemaphore K ε)
    (r : CancellationRegistration K) : (s.disposeRegistration r).critical = s.critical := by
  cases r <;> rfl

@[simp] theorem disposeRegistration_waiters (s : AsyncSemaphore K ε)
    (r : CancellationRegistration K) : (s.disposeRegistration r).waiters = s.waiters := by
  cases r <;> rfl

/-- The loop of `Dispose` completes the wait task of every waiter it has seen. -/
theorem foldl_disposeWaiter (ws : List (ℕ × Option (CancellationRegistration K)))
    (h : SemaphoreInv s) (hws : ∀ w ∈ ws, w.1 < s.issued) :
    SemaphoreInv (ws.foldl AsyncSemaphore.disposeWaiter s) ∧
      Later s (ws.foldl AsyncSemaphore.disposeWaiter s) ∧
      (ws.foldl AsyncSemaphore.disposeWaiter s).issued = s.issued ∧
      (ws.foldl AsyncSemaphore.disposeWaiter s).critical = s.critical ∧
      (ws.foldl AsyncSemaphore.disposeWaiter s).waiters = s.waiters ∧
      ∀ w ∈ ws, ((ws.foldl AsyncSemaphore.disposeWaiter s).waitTask w.1).state ≠ .created := by
  induction ws generalizing s with
  | nil => exact ⟨h, .refl s, rfl, rfl, rfl, nofun⟩
  | cons w ws ih =>
    have hw := hws w List.mem_cons_self
    have h1 : SemaphoreInv (s.disposeWaiter w) := by
      rw [disposeWaiter_eq]
      exact (h.trySetCanceled hw).disposeRegistration _
    have hissued : (s.disposeWaiter w).issued = s.issued := by simp [disposeWaiter_eq]
    have hlater : Later s (s.disposeWaiter w) := by
      rw [disposeWaiter_eq]
      exact (Later.trySetCanceled s w.1).trans (.disposeRegistration _ _)
    obtain ⟨i1, i2, i3, i4, i5, i6⟩ := ih h1 fun v hv => by
      rw [hissued]
      exact hws v (List.mem_cons_of_mem _ hv)
    refine ⟨i1, hlater.trans i2, i3.trans hissued, ?_, ?_, ?_⟩
    · rw [List.foldl_cons, i4]
      simp [disposeWaiter_eq]
    · rw [List.foldl_cons, i5]
      simp [disposeWaiter_eq]
    · intro v hv
      rcases List.mem_cons.mp hv with rfl | hv
      · -- `Dispose` has just completed this one, and completed tasks stay complete
        have hne : ((s.disposeWaiter v).waitTask v.1).state ≠ .created := by
          simp only [disposeWaiter_eq, disposeRegistration_waitTask, AsyncSemaphore.trySetCanceled,
            Function.update_self, (h.isWaitTask v.1).exec_trySetException]
          split
          · nofun
          · assumption
        rw [List.foldl_cons, i2.kept v.1 hne]
        exact hne
      · exact i6 v hv

/-- `Dispose` keeps the invariant and completes every wait task. -/
theorem dispose_step (h : SemaphoreInv s) (hc : s.critical = .free) :
    SemaphoreInv s.dispose ∧ Later s s.dispose ∧
      ∀ i < s.issued, (s.dispose.waitTask i).state.isCompleted := by
  have hqueued : s.queued = s.waiters.map Prod.fst := by
    simp [AsyncSemaphore.queued, hc, Critical.waiter]
  obtain ⟨i1, i2, i3, i4, i5, i6⟩ := foldl_disposeWaiter s.waiters h fun w hw =>
    h.queuedIssued w.1 (by rw [hqueued]; exact List.mem_map_of_mem hw)
  have hdone : ∀ i < s.issued, (s.dispose.waitTask i).state ≠ .created := by
    intro i hi hst
    by_cases hne : (s.waitTask i).state = .created
    · have hmem := h.pending i hi hne
      rw [hqueued] at hmem
      obtain ⟨w, hw, rfl⟩ := List.mem_map.mp hmem
      exact i6 w hw hst
    · exact hne (by rw [← i2.kept i hne]; exact hst)
  refine ⟨?_, ⟨i2.maxCount, i2.initialCount, i2.issued, i2.kept⟩,
    fun i hi => (i1.isWaitTask i).completed (hdone i hi)⟩
  unfold AsyncSemaphore.dispose at hdone ⊢
  refine { i1 with queuedIssued := ?_, pending := ?_, zero := ?_ }
  · intro i hi
    simp [AsyncSemaphore.queued, i4, hc, Critical.waiter] at hi
  · intro i hi hst
    exact absurd hst (hdone i (by rw [← i3]; exact hi))
  · rintro (hw | hw)
    · exact absurd rfl hw
    · exact absurd (i4.trans hc) hw

end Dispose

/-! ## Every reachable state -/

/-- A semaphore the constructor accepts meets the invariant. -/
theorem construct_inv {maxCount initialCount : ℤ} {s₀ : AsyncSemaphore K ε}
    (h : AsyncSemaphore.construct maxCount initialCount = .ok s₀) :
    SemaphoreInv s₀ ∧ s₀.maxCount = maxCount ∧ s₀.initialCount = initialCount ∧ s₀.issued = 0 := by
  unfold AsyncSemaphore.construct at h
  split_ifs at h
  cases h
  refine ⟨⟨?_, ?_, fun _ => .inl rfl, fun _ _ => rfl, nofun, fun _ => ⟨nofun, nofun⟩, nofun, ?_,
    nofun⟩, rfl, rfl, rfl⟩
  · constructor <;> dsimp only <;> omega
  · simp [AsyncSemaphore.grants, Critical.grantedOne]
  · simp

variable [DecidableEq K]

theorem SemaphoreInv.step {s s' : AsyncSemaphore K ε} {a : SemaphoreLabel K} (h : SemaphoreInv s)
    (hs : s.step a = some s') : SemaphoreInv s' ∧ Later s s' := by
  cases a with
  | waitAsync k =>
    simp only [AsyncSemaphore.step] at hs
    split at hs <;> cases hs
    exact ⟨h.waitAsync ‹_› k, .waitAsync h k⟩
  | release =>
    simp only [AsyncSemaphore.step] at hs
    split at hs <;> cases hs
    exact ⟨h.release ‹_›, .release s⟩
  | advance => exact ⟨h.advance hs, .advance hs⟩
  | cancel k =>
    simp only [AsyncSemaphore.step] at hs
    split_ifs at hs <;> cases hs
    · exact ⟨h, .refl s⟩
    · have hset := h.setToken (k := k) (t := { s.token k with isCanceled := true })
        (h.actionsIssued k).1
      exact ⟨hset.setCanceling (p := .exchanged) (by simp [CancelPhase.actions]),
        ⟨rfl, rfl, le_rfl, fun _ _ => rfl⟩⟩
  | runCancel k => exact ⟨h.runCancel hs, .runCancel hs⟩
  | dispose =>
    simp only [AsyncSemaphore.step] at hs
    split at hs <;> cases hs
    obtain ⟨h1, h2, -⟩ := dispose_step h ‹_›
    exact ⟨h1, h2⟩

theorem reachable_semaphoreInv {maxCount initialCount : ℤ} {s₀ s : AsyncSemaphore K ε}
    (h0 : AsyncSemaphore.construct maxCount initialCount = .ok s₀)
    (h : (semaphoreMachine s₀).Reachable Machine.Any s) : SemaphoreInv s ∧ Later s₀ s := by
  refine h.invariant (I := fun s => SemaphoreInv s ∧ Later s₀ s) ?_ ?_
  · exact ⟨(construct_inv h0).1, .refl s₀⟩
  · rintro s a s' ⟨hi, hl⟩ - hs
    obtain ⟨hi', hl'⟩ := hi.step hs
    exact ⟨hi', hl.trans hl'⟩

/-- A wait task that is complete keeps its outcome. -/
theorem waitTask_absorbing {s₀ s s' : AsyncSemaphore K ε} (h : SemaphoreInv s)
    (hr : (semaphoreMachine s₀).Reaches Machine.Any s s') : SemaphoreInv s' ∧ Later s s' := by
  refine hr.preserves (I := fun u => SemaphoreInv u ∧ Later s u) ?_ ⟨h, .refl s⟩
  rintro u a u' ⟨hi, hl⟩ - hs
  obtain ⟨hi', hl'⟩ := hi.step hs
  exact ⟨hi', hl.trans hl'⟩

/-- Conservation of permits. In every reachable state of a semaphore its constructor accepts:
    the counter stays between `0` and `maxCount`; every wait task is pending, granted or
    cancelled, and keeps its outcome for ever; while the lock is free the counter is the
    initial count plus the `Release` calls that returned minus the wait tasks granted, and
    it is `0` where some wait task is pending; and a `Dispose` leaves no wait task pending. -/
theorem semaphore_conservation {maxCount initialCount : ℤ} {s₀ s : AsyncSemaphore K ε}
    (h0 : AsyncSemaphore.construct maxCount initialCount = .ok s₀)
    (h : (semaphoreMachine s₀).Reachable Machine.Any s) :
    (0 ≤ s.currentCount ∧ s.currentCount ≤ maxCount) ∧
    (∀ i, IsWaitTask (s.waitTask i)) ∧
    (∀ s', (semaphoreMachine s₀).Reaches Machine.Any s s' → ∀ i,
      (s.waitTask i).state ≠ .created → s'.waitTask i = s.waitTask i) ∧
    (s.critical = .free →
      s.currentCount = initialCount + s.released - s.grants ∧
      ((∃ i < s.issued, (s.waitTask i).state = .created) → s.currentCount = 0)) ∧
    (∀ s', (semaphoreMachine s₀).step s .dispose = some s' →
      ∀ i < s.issued, (s'.waitTask i).state.isCompleted) := by
  obtain ⟨hi, hl⟩ := reachable_semaphoreInv h0 h
  obtain ⟨-, hmax, hinit, -⟩ := construct_inv h0
  refine ⟨?_, hi.isWaitTask, ?_, ?_, ?_⟩
  · rw [← hmax, ← hl.maxCount]
    exact hi.count
  · intro s' hr
    exact (waitTask_absorbing hi hr).2.kept
  · intro hc
    have hcons := hi.conserve
    rw [hc, hl.initialCount, hinit] at hcons
    refine ⟨by simp only [Critical.grantedOne] at hcons; omega, ?_⟩
    rintro ⟨i, hlt, hst⟩
    have hmem := hi.pending i hlt hst
    refine hi.zero (.inl ?_)
    rintro hnil
    simp [AsyncSemaphore.queued, hc, hnil, Critical.waiter] at hmem
  · intro s' hs
    simp only [semaphoreMachine, AsyncSemaphore.step] at hs
    split at hs <;> cases hs
    exact (dispose_step hi ‹_›).2.2

/-- One permit: the first wait is granted, the second is queued with a token and cancelled,
    the third is queued, and a `Release` skips the cancelled waiter. -/
theorem semaphore_conservation_skip :
    ∃ s₀ s : AsyncSemaphore Unit Empty, AsyncSemaphore.construct 1 1 = .ok s₀ ∧
      (semaphoreMachine s₀).Reachable Machine.Any s ∧ s.critical = .free ∧
        s.waitTask 1 = canceledWait ∧ s.waitTask 2 = granted ∧
          s.currentCount = 1 + s.released - s.grants := by
  let s₀ : AsyncSemaphore Unit Empty := { maxCount := 1, initialCount := 1, currentCount := 1 }
  obtain ⟨s, hr, hfree, hcanceled, hgranted⟩ : ∃ s, (semaphoreMachine s₀).run s₀
      [.waitAsync none, .waitAsync (some ()), .advance, .advance, .advance, .waitAsync none,
        .advance, .cancel (), .runCancel (), .runCancel (), .runCancel (), .release, .advance,
        .advance, .advance] = some s ∧
      s.critical = .free ∧ s.waitTask 1 = canceledWait ∧ s.waitTask 2 = granted :=
    ⟨_, rfl, rfl, rfl, rfl⟩
  have h0 : AsyncSemaphore.construct 1 1 = .ok s₀ := rfl
  exact ⟨s₀, s, h0, .of_run hr, hfree, hcanceled, hgranted,
    ((semaphore_conservation h0 (.of_run hr)).2.2.2.1 hfree).1⟩

end AsyncCpp.AsyncPrimitives
