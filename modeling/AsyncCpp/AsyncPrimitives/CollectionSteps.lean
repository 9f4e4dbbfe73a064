import AsyncCpp.AsyncPrimitives.AsyncCollection

/-!
# What the steps of the queue leave as it is

Only `Cancel` cancels a token, only a call of `WaitAsync` lets somebody into it, and only a call
of `Release()` begins one.

Results:
* `AsyncCollection.step_isCanceled`, `AsyncCollection.step_calling`,
  `AsyncCollection.step_inRelease`.
-/

namespace AsyncCpp.AsyncPrimitives

open Interleaving

/-! ## The branches of a step -/

/-- The step leaves the queue alone. -/
def CollectionLabel.isQuiet {K α : Type*} : CollectionLabel K α → Bool
  | .release | .takeAsync _ | .advance | .cancel _ | .runCancel _ => true
  | .push _ | .resume _ | .tryTakeAll => false

namespace AsyncCollection

variable {K α ε : Type*} [DecidableEq K] {s s' : AsyncCollection K α ε}

theorem semaphoreStep_cases {a : SemaphoreLabel K} (h : s.semaphoreStep a = some s') :
    ∃ t, s.asyncSemaphore.step a = some t ∧ s' = { s with asyncSemaphore := t } := by
  simp only [semaphoreStep, Option.map_eq_some_iff] at h
  obtain ⟨t, ht, rfl⟩ := h
  exact ⟨t, ht, rfl⟩

omit [DecidableEq K] in
theorem waitAsync_issued (s : AsyncSemaphore K ε) (k : Option K) :
    (s.waitAsync k).issued = s.issued + 1 := by
  unfold AsyncSemaphore.waitAsync
  split_ifs
  · rfl
  · cases k <;> rfl

/-- The number of the wait task of a `TakeAsync` call. -/
theorem takeAsync_issued {k : Option K} (h : s.step (.takeAsync k) = some s') :
    s'.asyncSemaphore.issued = s.asyncSemaphore.issued + 1 := by
  obtain ⟨t, ht, rfl⟩ := semaphoreStep_cases h
  simp only [AsyncSemaphore.step] at ht
  split at ht <;> cases ht
  exact waitAsync_issued _ k

theorem step_of_isQuiet {a : CollectionLabel K α} (ha : a.isQuiet) (h : s.step a = some s') :
    s' = { s with asyncSemaphore := s'.asyncSemaphore, adding := s'.adding } ∧
      s.asyncSemaphore.issued ≤ s'.asyncSemaphore.issued := by
  cases a with
  | push item | resume i | tryTakeAll => cases ha
  | release =>
    simp only [step] at h
    split_ifs at h
    obtain ⟨t, ht, rfl⟩ := semaphoreStep_cases h
    simp only [AsyncSemaphore.step] at ht
    split at ht <;> cases ht
    exact ⟨rfl, (Later.release s.asyncSemaphore).issued⟩
  | takeAsync k =>
    have hissued := takeAsync_issued h
    obtain ⟨t, -, rfl⟩ := semaphoreStep_cases h
    exact ⟨rfl, by omega⟩
  | advance =>
    obtain ⟨t, ht, rfl⟩ := semaphoreStep_cases h
    exact ⟨rfl, (Later.advance ht).issued⟩
  | cancel k =>
    obtain ⟨t, ht, rfl⟩ := semaphoreStep_cases h
    refine ⟨rfl, ?_⟩
    simp only [AsyncSemaphore.step] at ht
    split_ifs at ht
    all_goals
      cases ht
      exact le_rfl
  | runCancel k =>
    obtain ⟨t, ht, rfl⟩ := semaphoreStep_cases h
    exact ⟨rfl, (Later.runCancel ht).issued⟩

/-- The wait task of `TakeAsync` number `i` goes on: the call pops an item, or fails. -/
theorem resume_cases {i : ℕ} (h : s.step (.resume i) = some s') :
    (∃ x xs, s.innerCollection = x :: xs ∧ s' = { s with
      innerCollection := xs, handedOut := s.handedOut ++ [(some i, x)]
      outcome := Function.update s.outcome i (some (.ok x)) }) ∨
    ∃ e, s' = { s with outcome := Function.update s.outcome i (some (.error e)) } := by
  simp only [step] at h
  split_ifs at h
  cases h
  unfold resume
  split
  · exact .inr ⟨_, rfl⟩
  · split
    · exact .inr ⟨_, rfl⟩
    · exact .inl ⟨_, _, ‹_›, rfl⟩

end AsyncCollection

/-! ## Tokens -/

namespace AsyncSemaphore

variable {K ε : Type*}

theorem popFront_token (s : AsyncSemaphore K ε) : s.popFront.token = s.token := by
  unfold popFront
  split <;> rfl

theorem loopTest_token (s : AsyncSemaphore K ε) (waiterReleased : Bool) :
    (s.loopTest waiterReleased).token = s.token := by
  unfold loopTest
  split_ifs
  · rfl
  · rfl
  · exact popFront_token s

theorem waitAsync_token (s : AsyncSemaphore K ε) (k : Option K) :
    (s.waitAsync k).token = s.token := by
  unfold waitAsync
  split_ifs
  · rfl
  · cases k <;> rfl

theorem release_token (s : AsyncSemaphore K ε) : s.release.token = s.token := by
  unfold release
  split_ifs
  · rfl
  · rfl
  · exact popFront_token s

theorem popFront_canceling (s : AsyncSemaphore K ε) : s.popFront.canceling = s.canceling := by
  unfold popFront
  split <;> rfl

theorem loopTest_canceling (s : AsyncSemaphore K ε) (waiterReleased : Bool) :
    (s.loopTest waiterReleased).canceling = s.canceling := by
  unfold loopTest
  split_ifs
  · rfl
  · rfl
  · exact popFront_canceling s

theorem waitAsync_canceling (s : AsyncSemaphore K ε) (k : Option K) :
    (s.waitAsync k).canceling = s.canceling := by
  unfold waitAsync
  split_ifs
  · rfl
  · cases k <;> rfl

theorem release_canceling (s : AsyncSemaphore K ε) : s.release.canceling = s.canceling := by
  unfold release
  split_ifs
  · rfl
  · rfl
  · exact popFront_canceling s

variable [DecidableEq K] {s s' : AsyncSemaphore K ε}

theorem advance_canceling (h : s.advance = some s') : s'.canceling = s.canceling := by
  cases advance_cases h with
  | registerCanceled | registerChecked | registered | emplaced | poppedRegistered => rfl
  | popped =>
    rw [loopTest_canceling]
    rfl
  | @disposed r =>
    rw [loopTest_canceling]
    cases r <;> rfl

theorem isCanceled_update {token : K → CtsSharedState ℕ} {j : K} {t : CtsSharedState ℕ}
    (ht : t.isCanceled = (token j).isCanceled) (k : K) :
    (Function.update token j t k).isCanceled = (token k).isCanceled := by
  by_cases hk : k = j
  · subst hk
    rwa [Function.update_self]
  · rw [Function.update_of_ne hk]

theorem disposeRegistration_isCanceled (s : AsyncSemaphore K ε) (r : CancellationRegistration K)
    (k : K) : ((s.disposeRegistration r).token k).isCanceled = (s.token k).isCanceled := by
  cases r with
  | empty => rfl
  | remove j id => exact isCanceled_update (by rfl) k

theorem advance_isCanceled (h : s.advance = some s') (k : K) :
    (s'.token k).isCanceled = (s.token k).isCanceled := by
  cases advance_cases h with
  | registerCanceled | registerChecked | emplaced | poppedRegistered => rfl
  | registered => exact isCanceled_update (by rfl) k
  | popped =>
    rw [loopTest_token]
    rfl
  | disposed =>
    rw [loopTest_token]
    exact disposeRegistration_isCanceled s _ k

theorem runCancel_isCanceled {j : K} (h : s.runCancel j = some s') (k : K) :
    (s'.token k).isCanceled = (s.token k).isCanceled := by
  cases runCancel_cases h with
  | moved => exact isCanceled_update (by rfl) k
  | ended | ran => rfl

end AsyncSemaphore

/-- Only `Cancel` cancels a token. -/
theorem AsyncCollection.step_isCanceled {K α ε : Type*} [DecidableEq K]
    {s s' : AsyncCollection K α ε} {a : CollectionLabel K α} (hne : ∀ k, a ≠ .cancel k)
    (h : s.step a = some s') (k : K) :
    (s'.asyncSemaphore.token k).isCanceled = (s.asyncSemaphore.token k).isCanceled := by
  cases a with
  | push item | tryTakeAll =>
    cases h
    rfl
  | cancel j => exact absurd rfl (hne j)
  | release =>
    simp only [step] at h
    split_ifs at h
    obtain ⟨t, ht, rfl⟩ := semaphoreStep_cases h
    simp only [AsyncSemaphore.step] at ht
    split at ht <;> cases ht
    rw [AsyncSemaphore.release_token]
  | takeAsync j =>
    obtain ⟨t, ht, rfl⟩ := semaphoreStep_cases h
    simp only [AsyncSemaphore.step] at ht
    split at ht <;> cases ht
    rw [AsyncSemaphore.waitAsync_token]
  | resume i =>
    rcases resume_cases h with ⟨x, xs, -, rfl⟩ | ⟨e, rfl⟩ <;> rfl
  | advance =>
    obtain ⟨t, ht, rfl⟩ := semaphoreStep_cases h
    exact AsyncSemaphore.advance_isCanceled ht k
  | runCancel j =>
    obtain ⟨t, ht, rfl⟩ := semaphoreStep_cases h
    exact AsyncSemaphore.runCancel_isCanceled ht k

/-! ## Who is inside the queue -/

variable {K α ε : Type*}

/-- The step calls `WaitAsync`, or it resumes a `TakeAsync`. -/
def CollectionLabel.takes : CollectionLabel K α → Bool
  | .takeAsync _ | .resume _ => true
  | .push _ | .release | .tryTakeAll | .advance | .cancel _ | .runCancel _ => false

namespace AsyncSemaphore

variable {s s' : AsyncSemaphore K ε}

theorem popFront_calling (hw : s.waiters ≠ []) :
    s.popFront.critical.calling = [] ∧ s.popFront.issued = s.issued := by
  obtain ⟨⟨i, r⟩, ws, hws⟩ := List.exists_cons_of_ne_nil hw
  simp only [popFront, hws]
  exact ⟨rfl, trivial⟩

theorem loopTest_calling (s : AsyncSemaphore K ε) (waiterReleased : Bool) :
    (s.loopTest waiterReleased).critical.calling = [] ∧
      (s.loopTest waiterReleased).issued = s.issued := by
  unfold loopTest
  split_ifs with h1 h2
  · exact ⟨rfl, rfl⟩
  · exact ⟨rfl, rfl⟩
  · exact popFront_calling fun hnil => h2 (List.isEmpty_iff.mpr hnil)

theorem release_calling (hc : s.critical = .free) :
    s.release.critical.calling = [] ∧ s.release.issued = s.issued := by
  have hfree : s.critical.calling = [] := by rw [hc]; rfl
  unfold release
  split_ifs with hfull hempty
  · exact ⟨hfree, rfl⟩
  · exact ⟨hfree, rfl⟩
  · exact popFront_calling fun hnil => hempty (List.isEmpty_iff.mpr hnil)

/-- Nobody is inside `_waitersLock`, or a `Release()` is. -/
def atRelease (s : AsyncSemaphore K ε) : Prop := s.critical = .free ∨ s.critical.inRelease

theorem popFront_atRelease (hw : s.waiters ≠ []) : s.popFront.atRelease := by
  obtain ⟨⟨i, r⟩, ws, hws⟩ := List.exists_cons_of_ne_nil hw
  simp only [popFront, hws]
  exact .inr rfl

theorem loopTest_atRelease (s : AsyncSemaphore K ε) (waiterReleased : Bool) :
    (s.loopTest waiterReleased).atRelease := by
  unfold loopTest
  split_ifs with h1 h2
  · exact .inl rfl
  · exact .inl rfl
  · exact popFront_atRelease fun hnil => h2 (List.isEmpty_iff.mpr hnil)

/-- `Release()` begins while nobody is inside. -/
theorem release_atRelease (hc : s.critical = .free) : s.release.atRelease := by
  unfold release
  split_ifs with hfull hempty
  · exact .inl hc
  · exact .inl hc
  · exact popFront_atRelease fun hnil => hempty (List.isEmpty_iff.mpr hnil)

theorem waitAsync_calling (hc : s.critical = .free) (k : Option K) :
    (∀ i ∈ (s.waitAsync k).critical.calling, i = s.issued) ∧
      (s.waitAsync k).critical.inRelease = false := by
  unfold waitAsync
  split_ifs
  · simp [hc, Critical.calling, Critical.inRelease]
  · cases k <;> simp [Critical.calling, Critical.inRelease]

variable [DecidableEq K]

/-- The holder of `_waitersLock` stays in its operation, or leaves it. -/
theorem advance_calling (hs : s.advance = some s') :
    (∀ i ∈ s'.critical.calling, i ∈ s.critical.calling) ∧ s'.issued = s.issued ∧
      (s'.critical.inRelease → s.critical.inRelease) := by
  cases advance_cases hs with
  | registerCanceled hc | registerChecked hc | registered hc =>
    rw [hc]
    exact ⟨fun j hj => hj, rfl, nofun⟩
  | emplaced hc => exact ⟨nofun, rfl, nofun⟩
  | @popped i hc =>
    obtain ⟨h1, h2⟩ :=
      loopTest_calling (s.trySetResult i) (decide ((s.waitTask i).state = .created))
    exact ⟨by rw [h1]; nofun, h2, fun _ => by rw [hc]; rfl⟩
  | poppedRegistered hc => exact ⟨nofun, rfl, fun _ => by rw [hc]; rfl⟩
  | @disposed r waiterReleased hc =>
    obtain ⟨h1, h2⟩ := loopTest_calling (s.disposeRegistration r) waiterReleased
    exact ⟨by rw [h1]; nofun, by rw [h2, disposeRegistration_issued], fun _ => by rw [hc]; rfl⟩

theorem cancel_calling {k : K} (hs : s.step (.cancel k) = some s') :
    s'.critical = s.critical ∧ s'.issued = s.issued := by
  simp only [step] at hs
  split_ifs at hs <;> cases hs <;> exact ⟨rfl, rfl⟩

theorem runCancel_calling {k : K} (hs : s.runCancel k = some s') :
    s'.critical = s.critical ∧ s'.issued = s.issued := by
  cases runCancel_cases hs <;> exact ⟨rfl, rfl⟩

/-- The holder of `_waitersLock` can always go on. -/
theorem advance_isSome (hc : s.critical ≠ .free) : s.advance.isSome := by
  unfold advance
  split
  · exact absurd ‹_› hc
  · split_ifs <;> rfl
  · rfl
  · rfl
  · split <;> rfl
  · rfl

end AsyncSemaphore

namespace AsyncCollection

variable [DecidableEq K] {s s' : AsyncCollection K α ε} {a : CollectionLabel K α}

/-- A step that neither calls `WaitAsync` nor resumes a `TakeAsync` lets nobody into
    `WaitAsync`. -/
theorem step_calling (hs : s.step a = some s') (ha : a.takes = false) :
    (∀ i ∈ s'.asyncSemaphore.critical.calling, i ∈ s.asyncSemaphore.critical.calling) ∧
      s'.asyncSemaphore.issued = s.asyncSemaphore.issued ∧ s'.outcome = s.outcome := by
  cases a with
  | takeAsync k | resume i => cases ha
  | push item =>
    cases hs
    exact ⟨fun _ hi => hi, rfl, rfl⟩
  | tryTakeAll =>
    cases hs
    exact ⟨fun _ hi => hi, rfl, rfl⟩
  | release =>
    simp only [step] at hs
    split_ifs at hs
    obtain ⟨t, ht, rfl⟩ := semaphoreStep_cases hs
    simp only [AsyncSemaphore.step] at ht
    split at ht <;> cases ht
    obtain ⟨h1, h2⟩ := AsyncSemaphore.release_calling ‹_›
    refine ⟨fun i hi => ?_, h2, rfl⟩
    rw [h1] at hi
    cases hi
  | advance =>
    obtain ⟨t, ht, rfl⟩ := semaphoreStep_cases hs
    obtain ⟨h1, h2, -⟩ := AsyncSemaphore.advance_calling ht
    exact ⟨h1, h2, rfl⟩
  | cancel k =>
    obtain ⟨t, ht, rfl⟩ := semaphoreStep_cases hs
    obtain ⟨h1, h2⟩ := AsyncSemaphore.cancel_calling ht
    exact ⟨fun i hi => h1 ▸ hi, h2, rfl⟩
  | runCancel k =>
    obtain ⟨t, ht, rfl⟩ := semaphoreStep_cases hs
    obtain ⟨h1, h2⟩ := AsyncSemaphore.runCancel_calling ht
    exact ⟨fun i hi => h1 ▸ hi, h2, rfl⟩

/-- The semaphore keeps its invariant. -/
theorem step_semaphoreInv (h : SemaphoreInv s.asyncSemaphore) (hs : s.step a = some s') :
    SemaphoreInv s'.asyncSemaphore := by
  cases a with
  | push item | tryTakeAll =>
    cases hs
    exact h
  | resume i =>
    rcases resume_cases hs with ⟨x, xs, -, rfl⟩ | ⟨e, rfl⟩ <;> exact h
  | release =>
    simp only [step] at hs
    split_ifs at hs
    obtain ⟨t, ht, rfl⟩ := semaphoreStep_cases hs
    exact (h.step ht).1
  | takeAsync k | advance | cancel k | runCancel k =>
    obtain ⟨t, ht, rfl⟩ := semaphoreStep_cases hs
    exact (h.step ht).1

/-- Only a cancellation changes where the cancellations are. -/
theorem step_canceling (hs : s.step a = some s') (h1 : ∀ k, a ≠ .cancel k)
    (h2 : ∀ k, a ≠ .runCancel k) : s'.asyncSemaphore.canceling = s.asyncSemaphore.canceling := by
  cases a with
  | cancel k => exact absurd rfl (h1 k)
  | runCancel k => exact absurd rfl (h2 k)
  | push item | tryTakeAll =>
    cases hs
    rfl
  | resume i =>
    rcases resume_cases hs with ⟨x, xs, -, rfl⟩ | ⟨e, rfl⟩ <;> rfl
  | release =>
    simp only [step] at hs
    split_ifs at hs
    obtain ⟨t, ht, rfl⟩ := semaphoreStep_cases hs
    simp only [AsyncSemaphore.step] at ht
    split at ht <;> cases ht
    exact AsyncSemaphore.release_canceling _
  | takeAsync k =>
    obtain ⟨t, ht, rfl⟩ := semaphoreStep_cases hs
    simp only [AsyncSemaphore.step] at ht
    split at ht <;> cases ht
    exact AsyncSemaphore.waitAsync_canceling _ k
  | advance =>
    obtain ⟨t, ht, rfl⟩ := semaphoreStep_cases hs
    exact AsyncSemaphore.advance_canceling ht

/-- A step other than a call of `Release()` begins none. -/
theorem step_inRelease (hs : s.step a = some s') (h1 : a ≠ .release)
    (hc : s'.asyncSemaphore.critical.inRelease) : s.asyncSemaphore.critical.inRelease := by
  cases a with
  | release => exact absurd rfl h1
  | push item | tryTakeAll =>
    cases hs
    exact hc
  | resume i =>
    obtain ⟨x, xs, -, rfl⟩ | ⟨e, rfl⟩ := resume_cases hs <;> exact hc
  | takeAsync k =>
    obtain ⟨t, ht, rfl⟩ := semaphoreStep_cases hs
    simp only [AsyncSemaphore.step] at ht
    split at ht <;> cases ht
    rw [(AsyncSemaphore.waitAsync_calling ‹_› k).2] at hc
    cases hc
  | advance =>
    obtain ⟨t, ht, rfl⟩ := semaphoreStep_cases hs
    exact (AsyncSemaphore.advance_calling ht).2.2 hc
  | cancel k =>
    obtain ⟨t, ht, rfl⟩ := semaphoreStep_cases hs
    rwa [← (AsyncSemaphore.cancel_calling ht).1]
  | runCancel k =>
    obtain ⟨t, ht, rfl⟩ := semaphoreStep_cases hs
    rwa [← (AsyncSemaphore.runCancel_calling ht).1]

/-- `Release()` begins while nobody is inside, and is inside or has ended. -/
theorem step_release (hs : s.step .release = some s') :
    s.asyncSemaphore.critical = .free ∧ s'.asyncSemaphore.atRelease ∧
      s'.adding + 1 = s.adding := by
  simp only [step] at hs
  split_ifs at hs with hpos
  obtain ⟨t, ht, rfl⟩ := semaphoreStep_cases hs
  simp only [AsyncSemaphore.step] at ht
  split at ht <;> cases ht
  rename_i hfree
  exact ⟨hfree, AsyncSemaphore.release_atRelease hfree, Nat.sub_add_cancel hpos⟩

/-- A `Release()` that finds the semaphore full changes nobody's place. -/
theorem critical_of_full (hs : s.step .release = some s')
    (hfull : s.asyncSemaphore.currentCount = s.asyncSemaphore.maxCount) :
    s'.asyncSemaphore.critical = s.asyncSemaphore.critical := by
  simp only [step] at hs
  split_ifs at hs
  obtain ⟨t, ht, rfl⟩ := semaphoreStep_cases hs
  simp only [AsyncSemaphore.step] at ht
  split at ht <;> cases ht
  simp only [AsyncSemaphore.release, if_pos hfull]

/-- `Release()` goes on, and is inside or has ended. -/
theorem step_advance_inRelease (hs : s.step .advance = some s')
    (hin : s.asyncSemaphore.critical.inRelease) : s'.asyncSemaphore.atRelease := by
  obtain ⟨t, ht, rfl⟩ := semaphoreStep_cases hs
  cases AsyncSemaphore.advance_cases ht with
  | registerCanceled hc | registerChecked hc | registered hc | emplaced hc =>
    rw [hc] at hin
    cases hin
  | popped => exact AsyncSemaphore.loopTest_atRelease _ _
  | poppedRegistered => exact .inr rfl
  | disposed => exact AsyncSemaphore.loopTest_atRelease _ _

/-- Outside of `Release()` nothing begins or ends one. -/
theorem step_inRelease_iff (hs : s.step a = some s') (h1 : a ≠ .release)
    (h2 : a = .advance → ¬ s.asyncSemaphore.critical.inRelease) :
    s'.asyncSemaphore.critical.inRelease ↔ s.asyncSemaphore.critical.inRelease := by
  refine ⟨step_inRelease hs h1, fun hin => ?_⟩
  cases a with
  | release => exact absurd rfl h1
  | advance => exact absurd hin (h2 rfl)
  | push item | tryTakeAll =>
    cases hs
    exact hin
  | resume i =>
    rcases resume_cases hs with ⟨x, xs, -, rfl⟩ | ⟨e, rfl⟩ <;> exact hin
  | takeAsync k =>
    obtain ⟨t, ht, rfl⟩ := semaphoreStep_cases hs
    simp only [AsyncSemaphore.step] at ht
    split at ht
    · rename_i hfree
      rw [hfree] at hin
      cases hin
    · cases ht
  | cancel k =>
    obtain ⟨t, ht, rfl⟩ := semaphoreStep_cases hs
    rwa [(AsyncSemaphore.cancel_calling ht).1]
  | runCancel k =>
    obtain ⟨t, ht, rfl⟩ := semaphoreStep_cases hs
    rwa [(AsyncSemaphore.runCancel_calling ht).1]

/-- The `Add` calls before their `Release()`. -/
theorem step_adding (hs : s.step a = some s') (h1 : ∀ x, a ≠ .push x) (h2 : a ≠ .release) :
    s'.adding = s.adding := by
  cases a with
  | push item => exact absurd rfl (h1 item)
  | release => exact absurd rfl h2
  | tryTakeAll =>
    cases hs
    rfl
  | resume i =>
    obtain ⟨x, xs, -, rfl⟩ | ⟨e, rfl⟩ := resume_cases hs <;> rfl
  | takeAsync k | advance | cancel k | runCancel k =>
    obtain ⟨t, ht, rfl⟩ := semaphoreStep_cases hs
    rfl

end AsyncCollection

end AsyncCpp.AsyncPrimitives
