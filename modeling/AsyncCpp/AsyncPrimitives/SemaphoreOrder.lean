import AsyncCpp.AsyncPrimitives.SemaphoreInvariant

/-!
# The order in which an `AsyncSemaphore` serves its waiters

Wait tasks are numbered in the order in which their `WaitAsync` calls entered the critical
section. Cancelled waiters stay in `_waiters`, and the thread in the critical section may
hold a wait task that is about to be stored at the end of the queue or has been popped from
its front; with it the queue is always sorted.

Results:
* `waiters_first_come_first_served`: no wait task is granted, from the queue or at once,
  while an older one is pending.
-/

namespace AsyncCpp.AsyncPrimitives

open Interleaving Tasks

variable {K ε : Type*}

/-- The wait task that was popped from the front of the queue. -/
def Critical.front : Critical K → List ℕ
  | .popped i _ => [i]
  | _ => []

/-- The wait task that is about to be stored at the end of the queue. -/
def Critical.back : Critical K → List ℕ
  | .registering i _ | .registerChecked i _ | .emplacing i _ => [i]
  | _ => []

namespace AsyncSemaphore

/-- The queue, with the wait task in the hands of the thread in the critical section. -/
def line (s : AsyncSemaphore K ε) : List ℕ :=
  s.critical.front ++ s.waiters.map Prod.fst ++ s.critical.back

theorem mem_line {s : AsyncSemaphore K ε} {i : ℕ} : i ∈ s.line ↔ i ∈ s.queued := by
  cases hc : s.critical <;> simp [line, queued, hc, Critical.front, Critical.back,
    Critical.waiter, or_comm]

end AsyncSemaphore

/-- The queue is sorted, and what is older than a granted wait task is complete. -/
structure OrderInv (s : AsyncSemaphore K ε) : Prop where
  sorted : s.line.Pairwise (· < ·)
  served : ∀ i j, i < j → (s.waitTask j).state = .runToCompletion →
    (s.waitTask i).state ≠ .created

namespace OrderInv

variable {s s' : AsyncSemaphore K ε} {i : ℕ}

theorem congr (h : OrderInv s) (hl : s'.line = s.line) (ht : s'.waitTask = s.waitTask) :
    OrderInv s' := by
  refine ⟨?_, ?_⟩
  · rw [hl]
    exact h.sorted
  · rw [ht]
    exact h.served

/-- Completing a wait task: what was complete stays so, and a wait task is granted only if
    nothing older is pending. -/
theorem complete (h : OrderInv s) {t : TaskSharedState Unit ε} (hl : s'.line.Pairwise (· < ·))
    (ht : s'.waitTask = Function.update s.waitTask i t)
    (hkept : (s.waitTask i).state ≠ .created → t = s.waitTask i)
    (hcompleted : t.state ≠ .created)
    (hgrant : t.state = .runToCompletion → (s.waitTask i).state = .created →
      ∀ j < i, (s.waitTask j).state ≠ .created) : OrderInv s' := by
  refine ⟨hl, fun j k hjk hk => ?_⟩
  rw [ht] at hk ⊢
  by_cases hj : j = i
  · subst hj
    rwa [Function.update_self]
  rw [Function.update_of_ne hj]
  by_cases hki : k = i
  · subst hki
    rw [Function.update_self] at hk
    by_cases hc : (s.waitTask k).state = .created
    · exact hgrant hk hc j hjk
    · rw [hkept hc] at hk
      exact h.served j k hjk hk
  · rw [Function.update_of_ne hki] at hk
    exact h.served j k hjk hk

theorem trySetCanceled (h : OrderInv s) (hi : SemaphoreInv s) (i : ℕ) :
    OrderInv (s.trySetCanceled i) := by
  refine h.complete (i := i) h.sorted rfl (fun hc => (exec_trySet_of_completed hc).2) ?_ ?_
  all_goals
    rw [(hi.isWaitTask i).exec_trySetException]
    split
  · nofun
  · assumption
  · nofun
  · exact fun _ hc => absurd hc ‹_›

/-- The front waiter is granted: everything older is complete. -/
theorem trySetResult (h : OrderInv s) (hi : SemaphoreInv s)
    {r : Option (CancellationRegistration K)} (hc : s.critical = .popped i r) :
    OrderInv (s.trySetResult i) := by
  refine h.complete (i := i) h.sorted rfl (fun hc => (exec_trySet_of_completed hc).1) ?_ ?_
  · rw [(hi.isWaitTask i).exec_trySetResult]
    split
    · nofun
    · assumption
  · intro _ _ j hj hst
    have hissued : i < s.issued := hi.queuedIssued i (by
      simp [AsyncSemaphore.queued, hc, Critical.waiter])
    have hmem := AsyncSemaphore.mem_line.mpr (hi.pending j (hj.trans hissued) hst)
    have hsorted := h.sorted
    simp only [AsyncSemaphore.line, hc, Critical.front, Critical.back, List.append_nil,
      List.singleton_append] at hmem hsorted
    rcases List.mem_cons.mp hmem with rfl | hmem
    · exact absurd hj (Nat.lt_irrefl _)
    · exact absurd ((List.pairwise_cons.mp hsorted).1 j hmem) (Nat.not_lt.mpr hj.le)

theorem tail (h : OrderInv s) (hf : s'.critical.front = []) (hb : s'.critical.back = [])
    (hw : s'.waiters = s.waiters) (ht : s'.waitTask = s.waitTask) : OrderInv s' := by
  refine ⟨?_, ?_⟩
  · refine h.sorted.sublist ?_
    rw [AsyncSemaphore.line, AsyncSemaphore.line, hf, hb, hw, List.append_nil, List.nil_append]
    exact (List.sublist_append_right _ _).trans (List.sublist_append_left _ _)
  · rw [ht]
    exact h.served

theorem popFront (h : OrderInv s) : OrderInv s.popFront := by
  unfold AsyncSemaphore.popFront
  split
  · exact h
  · rename_i i r ws hw
    refine ⟨?_, h.served⟩
    have hsorted : (s.waiters.map Prod.fst).Pairwise (· < ·) := by
      refine h.sorted.sublist ?_
      exact (List.sublist_append_right _ _).trans (List.sublist_append_left _ _)
    simpa [AsyncSemaphore.line, Critical.front, Critical.back, hw] using hsorted

theorem loopTest (h : OrderInv s) (waiterReleased : Bool) :
    OrderInv (s.loopTest waiterReleased) := by
  unfold AsyncSemaphore.loopTest
  split_ifs
  · exact h.tail rfl rfl rfl rfl
  · exact h.tail rfl rfl rfl rfl
  · exact h.popFront

theorem release (h : OrderInv s) : OrderInv s.release := by
  unfold AsyncSemaphore.release
  split_ifs
  · exact h.congr rfl rfl
  · exact h.congr rfl rfl
  · exact h.popFront

/-- The call with the next number enters the critical section. -/
theorem waitAsync (h : OrderInv s) (hi : SemaphoreInv s) (hc : s.critical = .free)
    (k : Option K) : OrderInv (s.waitAsync k) := by
  have hline : s.line = s.waiters.map Prod.fst := by
    simp [AsyncSemaphore.line, hc, Critical.front, Critical.back]
  have hsorted := h.sorted
  have hpush : (s.line ++ [s.issued]).Pairwise (· < ·) := by
    refine List.pairwise_append.mpr ⟨hsorted, List.pairwise_singleton _ _, fun i hmem j hj => ?_⟩
    rw [List.mem_singleton.mp hj]
    exact hi.queuedIssued i (AsyncSemaphore.mem_line.mp hmem)
  have hfresh := hi.fresh s.issued le_rfl
  rw [hline] at hsorted hpush
  unfold AsyncSemaphore.waitAsync
  split_ifs with hpos
  · -- a free permit: nothing is queued, so nothing is pending
    refine h.complete (i := s.issued) ?_ rfl (fun hne => absurd (by rw [hfresh]) hne) nofun ?_
    · simpa [AsyncSemaphore.line, hc, Critical.front, Critical.back] using hsorted
    · intro _ _ j hj hst
      have hmem := hi.pending j hj hst
      have hzero := hi.zero (.inl fun hnil => by
        simp [AsyncSemaphore.queued, hc, hnil, Critical.waiter] at hmem)
      omega
  · cases k with
    | none | some k => exact ⟨hpush, h.served⟩

variable [DecidableEq K]

theorem disposeRegistration (h : OrderInv s) (r : CancellationRegistration K) :
    OrderInv (s.disposeRegistration r) := by
  cases r with
  | empty => exact h
  | remove k id => exact h.congr rfl rfl

theorem advance (h : OrderInv s) (hi : SemaphoreInv s) (hs : s.advance = some s') :
    OrderInv s' := by
  cases AsyncSemaphore.advance_cases hs with
  | @registerCanceled i k hc ht =>
    refine (h.trySetCanceled hi i).congr ?_ rfl
    simp [AsyncSemaphore.line, hc, Critical.front, Critical.back]
  | registerChecked hc | registered hc | emplaced hc =>
    refine h.congr ?_ rfl
    simp [AsyncSemaphore.line, hc, Critical.front, Critical.back]
  | popped hc => exact (h.trySetResult hi hc).loopTest _
  | poppedRegistered hc => exact (h.trySetResult hi hc).tail rfl rfl rfl rfl
  | @disposed r => exact (h.disposeRegistration r).loopTest _

theorem runCancel (h : OrderInv s) (hi : SemaphoreInv s) {k : K} (hs : s.runCancel k = some s') :
    OrderInv s' := by
  cases AsyncSemaphore.runCancel_cases hs with
  | moved | ended => exact h.congr rfl rfl
  | @ran i is hk => exact (h.trySetCanceled hi i).congr rfl rfl

theorem foldl_disposeWaiter (ws : List (ℕ × Option (CancellationRegistration K)))
    (h : OrderInv s) (hi : SemaphoreInv s) (hws : ∀ w ∈ ws, w.1 < s.issued) :
    OrderInv (ws.foldl AsyncSemaphore.disposeWaiter s) := by
  induction ws generalizing s with
  | nil => exact h
  | cons w ws ih =>
    have hw := hws w List.mem_cons_self
    refine ih ?_ ?_ fun v hv => ?_
    · rw [disposeWaiter_eq]
      exact (h.trySetCanceled hi w.1).disposeRegistration _
    · rw [disposeWaiter_eq]
      exact (hi.trySetCanceled hw).disposeRegistration _
    · rw [disposeWaiter_eq, disposeRegistration_issued]
      exact hws v (List.mem_cons_of_mem _ hv)

theorem step (h : OrderInv s) (hi : SemaphoreInv s) {a : SemaphoreLabel K}
    (hs : s.step a = some s') : OrderInv s' := by
  cases a with
  | waitAsync k =>
    simp only [AsyncSemaphore.step] at hs
    split at hs <;> cases hs
    exact h.waitAsync hi ‹_› k
  | release =>
    simp only [AsyncSemaphore.step] at hs
    split at hs <;> cases hs
    exact h.release
  | advance => exact h.advance hi hs
  | cancel k =>
    simp only [AsyncSemaphore.step] at hs
    split_ifs at hs <;> cases hs
    · exact h
    · exact h.congr rfl rfl
  | runCancel k => exact h.runCancel hi hs
  | dispose =>
    simp only [AsyncSemaphore.step] at hs
    split at hs <;> cases hs
    rename_i hc
    have hws : ∀ w ∈ s.waiters, w.1 < s.issued := fun w hw =>
      hi.queuedIssued w.1 (by
        simp only [AsyncSemaphore.queued, hc, Critical.waiter, List.nil_append]
        exact List.mem_map_of_mem hw)
    have hfold := h.foldl_disposeWaiter s.waiters hi hws
    have hcrit := (AsyncPrimitives.foldl_disposeWaiter s.waiters hi hws).2.2.2.1
    refine ⟨?_, hfold.served⟩
    simp [AsyncSemaphore.dispose, AsyncSemaphore.line, hcrit, hc, Critical.front, Critical.back]

end OrderInv

variable [DecidableEq K]

theorem reachable_orderInv {maxCount initialCount : ℤ} {s₀ s : AsyncSemaphore K ε}
    (h0 : AsyncSemaphore.construct maxCount initialCount = .ok s₀)
    (h : (semaphoreMachine s₀).Reachable Machine.Any s) : OrderInv s := by
  refine h.invariant_with (fun _ hr => (reachable_semaphoreInv h0 hr).1) ?_
    fun _ _ _ hq hi _ hs => hi.step hq hs
  unfold AsyncSemaphore.construct at h0
  split_ifs at h0
  cases h0
  exact ⟨List.Pairwise.nil, nofun⟩

/-- Waiters are served first-come-first-served: the queue holds the wait tasks in the order of
    their `WaitAsync` calls; while a wait task is neither granted nor cancelled, none after it
    is granted; and a call of `WaitAsync` that is granted at once finds no wait task pending. -/
theorem waiters_first_come_first_served {maxCount initialCount : ℤ} {s₀ s : AsyncSemaphore K ε}
    (h0 : AsyncSemaphore.construct maxCount initialCount = .ok s₀)
    (h : (semaphoreMachine s₀).Reachable Machine.Any s) :
    (s.waiters.map Prod.fst).Pairwise (· < ·) ∧
    (∀ w1 w2, w1 < w2 → s.waitTask w1 ≠ granted → s.waitTask w1 ≠ canceledWait →
      s.waitTask w2 ≠ granted) ∧
    (∀ k s', (semaphoreMachine s₀).step s (.waitAsync k) = some s' →
      s'.waitTask s.issued = granted → ∀ w < s.issued, (s.waitTask w).state ≠ .created) := by
  obtain ⟨hi, -⟩ := reachable_semaphoreInv h0 h
  have ho := reachable_orderInv h0 h
  refine ⟨?_, fun w1 w2 hlt hg hc hg' => ?_, fun k s' hs hg w hw => ?_⟩
  · refine ho.sorted.sublist ?_
    exact (List.sublist_append_right _ _).trans (List.sublist_append_left _ _)
  · rcases hi.isWaitTask w1 with hp | hp | hp
    · exact ho.served w1 w2 hlt (by rw [hg']; rfl) (by rw [hp])
    · exact hg hp
    · exact hc hp
  · have hs' := (h.step trivial hs : (semaphoreMachine s₀).Reachable Machine.Any s')
    have hserved := (reachable_orderInv h0 hs').served w s.issued hw (by rw [hg]; rfl)
    simp only [semaphoreMachine, AsyncSemaphore.step] at hs
    split at hs <;> cases hs
    intro hst
    refine hserved ?_
    unfold AsyncSemaphore.waitAsync
    split_ifs
    · simpa [Function.update_of_ne hw.ne] using hst
    · cases k <;> exact hst

/-- One permit: the second wait task is cancelled in the queue, and the `Release` that skips
    it grants the third, not the fourth. -/
theorem waiters_first_come_first_served_skip :
    ∃ s₀ s : AsyncSemaphore Unit Empty, AsyncSemaphore.construct 1 1 = .ok s₀ ∧
      (semaphoreMachine s₀).Reachable Machine.Any s ∧ s.waitTask 1 = canceledWait ∧
        s.waitTask 2 = granted ∧ s.waitTask 3 = {} ∧
          (s.waiters.map Prod.fst).Pairwise (· < ·) := by
  let s₀ : AsyncSemaphore Unit Empty := { maxCount := 1, initialCount := 1, currentCount := 1 }
  obtain ⟨s, hr, hcanceled, hgranted, hpending⟩ : ∃ s, (semaphoreMachine s₀).run s₀
      [.waitAsync none, .waitAsync (some ()), .advance, .advance, .advance, .waitAsync none,
        .advance, .waitAsync none, .advance, .cancel (), .runCancel (), .runCancel (),
        .runCancel (), .release, .advance, .advance, .advance] = some s ∧
      s.waitTask 1 = canceledWait ∧ s.waitTask 2 = granted ∧ s.waitTask 3 = {} :=
    ⟨_, rfl, rfl, rfl, rfl⟩
  have h0 : AsyncSemaphore.construct 1 1 = .ok s₀ := rfl
  exact ⟨s₀, s, h0, .of_run hr, hcanceled, hgranted, hpending,
    (waiters_first_come_first_served h0 (.of_run hr)).1⟩

end AsyncCpp.AsyncPrimitives
