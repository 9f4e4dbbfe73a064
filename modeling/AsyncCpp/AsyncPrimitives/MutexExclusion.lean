import AsyncCpp.AsyncPrimitives.AsyncMutex

/-!
# Mutual exclusion

Whoever unlocks or destroys an `AsyncLockGuard` releases the semaphore, whether its
lock task has completed or not. A guard that gives up while it is queued behind
another one hands the permit it never had to the guard at the front of the queue, next
to the guard that holds the lock (`not_mutual_exclusion`).

As long as every `Release()` is called for a guard whose lock task has completed, or is
the first in the queue and so the one this `Release()` completes, the permit has one
owner (`Exclusive`): nobody, one guard, or the lock task the running `Release()` is about
to grant.

Results:
* `mutual_exclusion`: in every run without moves whose `Release()` calls are like that,
  at most one guard is held; the first `Release()` that is not leaves two guards held.
-/

namespace AsyncCpp.AsyncPrimitives

open Interleaving Tasks

variable {ε : Type*}

/-- Lock task `i` has completed and its guard has not begun to release it. -/
def HeldLock (s : AsyncMutex ε) (i : ℕ) : Prop :=
  (s.asyncSemaphore.waitTask i).state.isCompleted ∧ some i ∉ s.releases

theorem HeldLock.ne {s : AsyncMutex ε} {i j : ℕ} (h : HeldLock s i)
    (hj : (s.asyncSemaphore.waitTask j).state.isCompleted = false) : i ≠ j := by
  rintro rfl
  exact Bool.false_ne_true (hj.symm.trans h.1)

/-- Guard `g` is held: its lock task has completed and it has been neither unlocked nor
    destroyed. -/
def Held (s : AsyncMutex ε) (g : ℕ) : Prop := ∃ i, (s.guards g).lockTask = some i ∧ HeldLock s i

/-- Lock task `i` has completed, or is the first in the queue. -/
def MayRelease (s : AsyncMutex ε) (i : ℕ) : Prop :=
  (s.asyncSemaphore.waitTask i).state.isCompleted ∨
    (s.asyncSemaphore.waiters.map Prod.fst).head? = some i

/-- No guard is moved. -/
def Unmoved (_ : AsyncMutex ε) (a : MutexLabel) : Prop := ∀ g, a ≠ .move g

/-- No guard is moved, and guards release what they have acquired or what their release
    completes. -/
def ReleasesOwn (s : AsyncMutex ε) (a : MutexLabel) : Prop :=
  Unmoved s a ∧ ∀ i, a = .release (some i) → MayRelease s i

/-! ## Guards that are not moved -/

/-- Guard `g` belongs to lock task `g`, and each guard releases at most once. -/
structure GuardsOk (s : AsyncMutex ε) : Prop where
  made : s.asyncSemaphore.issued = s.constructed + s.asyncSemaphore.critical.making
  newest : ∀ i r, s.asyncSemaphore.critical = .emplacing i r → i = s.constructed
  unmade : ∀ g, s.constructed ≤ g → s.guards g = {}
  lockTask : ∀ g < s.constructed, (s.guards g).lockTask = some g
  pointer : ∀ g, (s.guards g).lockTaskPtr → some g ∉ s.unlocking ++ s.releases
  known : ∀ x ∈ s.unlocking ++ s.releases, ∃ g < s.constructed, x = some g
  nodup : (s.unlocking ++ s.releases).Nodup

namespace GuardsOk

variable {s s' : AsyncMutex ε} {g : ℕ}

/-- A guard is constructed for the newest lock task. -/
theorem construct (h : GuardsOk s) {sem : AsyncSemaphore Empty ε} (hc : sem.critical = .free)
    (hi : sem.issued = s.constructed + 1) :
    GuardsOk ({ s with asyncSemaphore := sem }.construct s.constructed) where
  made := by simp [hc, hi, Critical.making]
  newest := by
    intro i r he
    simp [hc] at he
  unmade := by
    intro g hg
    have hg : s.constructed + 1 ≤ g := hg
    simpa [Function.update_of_ne (show g ≠ s.constructed by omega)] using h.unmade g (by omega)
  lockTask := by
    intro g hg
    have hg : g < s.constructed + 1 := hg
    by_cases hne : g = s.constructed
    · simp [hne]
    · simpa [Function.update_of_ne hne] using h.lockTask g (by omega)
  pointer := by
    intro g hg hmem
    obtain ⟨g', hlt, heq⟩ := h.known _ hmem
    cases heq
    refine h.pointer g ?_ hmem
    simpa [Function.update_of_ne (Nat.ne_of_lt hlt)] using hg
  known := by
    intro x hx
    obtain ⟨g, hlt, heq⟩ := h.known x hx
    exact ⟨g, Nat.lt_succ_of_lt hlt, heq⟩
  nodup := h.nodup

/-- The exchange in `unlockNow` of a guard that has its pointer. -/
theorem exchange (h : GuardsOk s) (hg : g < s.constructed) (hptr : (s.guards g).lockTaskPtr)
    (d : Bool) :
    GuardsOk { s.setGuard g { s.guards g with lockTaskPtr := false, destroyed := d } with
      unlocking := s.unlocking ++ [(s.guards g).lockTask] } := by
  have htask := h.lockTask g hg
  have hnot := h.pointer g hptr
  have hperm : (s.unlocking ++ [some g] ++ s.releases).Perm
      (some g :: (s.unlocking ++ s.releases)) := by
    rw [List.append_assoc]
    exact List.perm_middle
  rw [htask]
  refine { h with
    unmade := ?_, lockTask := ?_, pointer := ?_, known := ?_
    nodup := hperm.nodup_iff.mpr (List.nodup_cons.mpr ⟨hnot, h.nodup⟩) }
  · intro g' hg'
    have hne : g' ≠ g := by
      rintro rfl
      exact absurd hg (Nat.not_lt.mpr hg')
    simpa [Function.update_of_ne hne] using h.unmade g' hg'
  · intro g' hg'
    by_cases hne : g' = g
    · subst hne
      simpa using htask
    · simpa [Function.update_of_ne hne] using h.lockTask g' hg'
  · intro g' hptr'
    have hne : g' ≠ g := by
      rintro rfl
      simp at hptr'
    intro hmem
    rcases List.mem_cons.mp (hperm.mem_iff.mp hmem) with heq | hmem
    · exact hne (Option.some.inj heq)
    · exact h.pointer g' (by simpa [Function.update_of_ne hne] using hptr') hmem
  · intro x hx
    rcases List.mem_cons.mp (hperm.mem_iff.mp hx) with rfl | hx
    · exact ⟨g, hg, rfl⟩
    · exact h.known x hx

/-- A guard that has lost its pointer is marked as destroyed. -/
theorem setDestroyed (h : GuardsOk s) (hg : g < s.constructed)
    (hptr : (s.guards g).lockTaskPtr = false) :
    GuardsOk (s.setGuard g { s.guards g with destroyed := true }) := by
  refine { h with unmade := ?_, lockTask := ?_, pointer := ?_ }
  · intro g' hg'
    have hne : g' ≠ g := by
      rintro rfl
      exact absurd hg (Nat.not_lt.mpr hg')
    simpa [Function.update_of_ne hne] using h.unmade g' hg'
  · intro g' hg'
    by_cases hne : g' = g
    · subst hne
      simpa using h.lockTask g' hg'
    · simpa [Function.update_of_ne hne] using h.lockTask g' hg'
  · intro g' hptr'
    by_cases hne : g' = g
    · subst hne
      simp [hptr] at hptr'
    · exact h.pointer g' (by simpa [Function.update_of_ne hne] using hptr')

/-- `Lock()` gets its lock task, and constructs its guard where the permit is free. -/
theorem lock_step (h : GuardsOk s) (hc : s.asyncSemaphore.critical = .free) :
    GuardsOk s.lock := by
  have hmade := h.made
  rw [hc] at hmade
  simp only [Critical.making, Nat.add_zero] at hmade
  obtain ⟨-, heq⟩ | ⟨-, heq⟩ := Plain.waitAsync_eq s.asyncSemaphore
  · simp only [AsyncMutex.lock, heq, hc]
    rw [hmade]
    exact h.construct rfl rfl
  · simp only [AsyncMutex.lock, heq]
    refine { h with made := ?_, newest := ?_ }
    · simp [Critical.making, hmade]
    · intro i r he
      cases he
      exact hmade

/-- `Release()` begins. -/
theorem release_step (h : GuardsOk s) (hi : MutexInv s)
    (hc : s.asyncSemaphore.critical = .free) {x : Option ℕ} (hx : x ∈ s.unlocking) :
    GuardsOk { s with
      asyncSemaphore := s.asyncSemaphore.release
      unlocking := s.unlocking.erase x, releases := s.releases ++ [x] } := by
  have hmade := h.made
  have hperm := release_perm (m := s.releases) hx
  have hissued : s.asyncSemaphore.release.issued = s.asyncSemaphore.issued ∧
      s.asyncSemaphore.release.critical.making = 0 ∧
      ∀ i r, s.asyncSemaphore.release.critical ≠ .emplacing i r := by
    obtain ⟨-, heq⟩ | ⟨-, -, heq⟩ | ⟨i, ws, -, -, heq⟩ := hi.plain.release_eq
    · simp [heq, hc, Critical.making]
    · simp [heq, hc, Critical.making]
    · simp [heq, Critical.making]
  obtain ⟨h1, h2, h3⟩ := hissued
  rw [hc] at hmade
  refine { h with made := ?_, newest := ?_, pointer := ?_, known := ?_, nodup := ?_ }
  · rw [h1, h2]
    exact hmade
  · intro i r he
    exact absurd he (h3 i r)
  · intro g hptr hmem
    exact h.pointer g hptr (hperm.mem_iff.mp hmem)
  · intro y hy
    exact h.known y (hperm.mem_iff.mp hy)
  · exact hperm.nodup_iff.mpr h.nodup

theorem advance_step (h : GuardsOk s) (hi : MutexInv s) (hs : s.advance = some s') :
    GuardsOk s' := by
  have hmade := h.made
  obtain ⟨i, hc, rfl⟩ | ⟨i, hc, rfl⟩ := AsyncMutex.advance_eq hi.plain hs
  · rw [hc] at hmade
    rw [h.newest i none hc]
    exact h.construct rfl hmade
  · rw [hc] at hmade
    exact { h with made := hmade, newest := nofun }

theorem step (h : GuardsOk s) (hi : MutexInv s) {a : MutexLabel} (hg : Unmoved s a)
    (hs : s.step a = some s') : GuardsOk s' := by
  cases AsyncMutex.step_cases hs with
  | lock hc => exact h.lock_step hc
  | @unlock g halive hptr => exact { h.exchange halive.1 hptr (s.guards g).destroyed with }
  | unlockThrows => exact { h with }
  | destroy halive hptr => exact h.exchange halive.1 hptr true
  | destroyUnlocked halive hptr => exact h.setDestroyed halive.1 hptr
  | @move g => exact absurd rfl (hg g)
  | release hx hc => exact h.release_step hi hc hx
  | advance hs => exact h.advance_step hi hs

end GuardsOk

theorem reachable_guardsOk {s : AsyncMutex ε} (h : (mutexMachine ε).Reachable Unmoved s) :
    GuardsOk s := by
  refine h.invariant_with (fun _ => reachable_mutexInv) ?_
    fun s a s' hi hg hu hs => hg.step hi hu hs
  exact ⟨rfl, nofun, fun _ _ => rfl, fun g hg => absurd hg (Nat.not_lt_zero g), nofun, nofun,
    List.nodup_nil⟩

/-! ## The owner of the permit -/

/-- The permit is free, belongs to one guard, or is about to be granted. -/
inductive Exclusive (s : AsyncMutex ε) : Prop
  | free (hcount : s.asyncSemaphore.currentCount = 1) (hnone : ∀ i, ¬ HeldLock s i)
      (hc : s.asyncSemaphore.critical = .free)
  | taken (hcount : s.asyncSemaphore.currentCount = 0) (h : ℕ) (hone : ∀ i, HeldLock s i ↔ i = h)
      (hc : ∀ i, s.asyncSemaphore.critical = .popped i none → some i ∈ s.releases)
  | passing (hcount : s.asyncSemaphore.currentCount = 0) (hnone : ∀ i, ¬ HeldLock s i) (i : ℕ)
      (hc : s.asyncSemaphore.critical = .popped i none) (hi : some i ∉ s.releases)

/-- The permit has one owner, and nobody in the queue has begun to release. -/
structure ExclusionInv (s : AsyncMutex ε) : Prop where
  exclusive : Exclusive s
  queue : ∀ i ∈ s.asyncSemaphore.waiters.map Prod.fst, some i ∉ s.releases

theorem Plain.not_completed {s : AsyncSemaphore Empty ε} (h : Plain s) {i : ℕ} (hi : i ∈ s.queued) :
    (s.waitTask i).state.isCompleted = false := by
  rw [h.queued i hi]
  rfl

/-- A lock task that has not completed is in the queue, where nobody is inside the lock. -/
theorem mem_waiters_of_not_completed {s : AsyncSemaphore Empty ε} (h : Plain s)
    (hc : s.critical = .free) {i : ℕ} (hi : i < s.issued)
    (hst : (s.waitTask i).state.isCompleted = false) : i ∈ s.waiters.map Prod.fst := by
  by_contra hnot
  have hg := h.granted i hi (by simpa [AsyncSemaphore.queued, hc, Critical.waiter] using hnot)
  rw [hg] at hst
  cases hst

namespace ExclusionInv

variable {s s' : AsyncMutex ε}

/-- A step that touches neither the semaphore nor the log of releases. -/
theorem congr (h : ExclusionInv s) (hsem : s'.asyncSemaphore = s.asyncSemaphore)
    (hrel : s'.releases = s.releases) : ExclusionInv s' := by
  have hheld : ∀ i, HeldLock s' i ↔ HeldLock s i := by
    intro i
    rw [HeldLock, HeldLock, hsem, hrel]
  refine ⟨?_, by rw [hsem, hrel]; exact h.queue⟩
  cases h.exclusive with
  | free hcount hnone hc =>
    exact .free (hsem ▸ hcount) (fun i => (hheld i).not.mpr (hnone i)) (hsem ▸ hc)
  | taken hcount h hone hc =>
    refine .taken (hsem ▸ hcount) h (fun i => (hheld i).trans (hone i)) ?_
    rw [hsem, hrel]
    exact hc
  | passing hcount hnone i hc hi =>
    exact .passing (hsem ▸ hcount) (fun i => (hheld i).not.mpr (hnone i)) i (hsem ▸ hc)
      (by rw [hrel]; exact hi)

theorem lock_step (h : ExclusionInv s) (hi : MutexInv s) (hg : GuardsOk s)
    (hc : s.asyncSemaphore.critical = .free) : ExclusionInv s.lock := by
  have hfresh := hi.semaphore.fresh s.asyncSemaphore.issued le_rfl
  have hnew : some s.asyncSemaphore.issued ∉ s.releases := by
    intro hmem
    obtain ⟨g, hlt, heq⟩ := hg.known _ (List.mem_append.mpr (.inr hmem))
    have hmade := hg.made
    rw [hc] at hmade
    cases heq
    simp only [Critical.making] at hmade
    omega
  obtain ⟨hpos, heq⟩ | ⟨hpos, heq⟩ := Plain.waitAsync_eq s.asyncSemaphore
  · -- the permit is free and goes to the new lock task
    simp only [AsyncMutex.lock, heq, hc]
    refine ⟨?_, h.queue⟩
    cases h.exclusive with
    | free hcount hnone _ =>
      refine .taken ?_ s.asyncSemaphore.issued ?_ (by simp)
      · simp [hcount]
      · intro i
        by_cases hne : i = s.asyncSemaphore.issued
        · subst hne
          simp [HeldLock, granted, TaskSharedState.ended, TaskState.isCompleted, hnew]
        · have := hnone i
          simpa [HeldLock, Function.update_of_ne hne, hne] using this
    | taken hcount => omega
    | passing hcount => omega
  · simp only [AsyncMutex.lock, heq]
    refine ⟨?_, h.queue⟩
    cases h.exclusive with
    | free hcount => omega
    | taken hcount h hone _ => exact .taken hcount h hone (by simp)
    | passing _ _ i hc' _ => simp [hc] at hc'

theorem advance_step (h : ExclusionInv s) (hi : MutexInv s) (hg : GuardsOk s)
    (hs : s.advance = some s') : ExclusionInv s' := by
  obtain ⟨i, hc, rfl⟩ | ⟨i, hc, rfl⟩ := AsyncMutex.advance_eq hi.plain hs
  · -- the new waiter is queued, and its guard has not released anything
    have hnew : some i ∉ s.releases := by
      intro hmem
      obtain ⟨g, hlt, heq'⟩ := hg.known _ (List.mem_append.mpr (.inr hmem))
      cases heq'
      exact absurd (hg.newest i none hc) (Nat.ne_of_lt hlt)
    refine ⟨?_, ?_⟩
    · cases h.exclusive with
      | free _ _ hc' => simp [hc] at hc'
      | taken hcount h hone _ => exact .taken hcount h hone (by simp)
      | passing _ _ j hc' _ => simp [hc] at hc'
    · intro j hj
      simp only [AsyncMutex.construct, AsyncMutex.setGuard, List.map_append,
        List.mem_append] at hj
      rcases hj with hj | hj
      · exact h.queue j hj
      · simp only [List.map_cons, List.map_nil, List.mem_singleton] at hj
        rwa [hj]
  · have hpending : (s.asyncSemaphore.waitTask i).state.isCompleted = false :=
      hi.plain.not_completed (by simp [AsyncSemaphore.queued, hc, Critical.waiter])
    refine ⟨?_, h.queue⟩
    cases h.exclusive with
    | free _ _ hc' => simp [hc] at hc'
    | taken hcount h hone hrel =>
      -- the lock task that is granted has given up already
      have hrel := hrel i hc
      refine .taken hcount h ?_ (by simp)
      intro j
      rw [← hone j]
      by_cases hji : j = i
      · subst hji
        simp [HeldLock, hrel]
      · simp [HeldLock, Function.update_of_ne hji]
    | passing hcount hnone j hc' hj =>
      rw [hc] at hc'
      cases hc'
      refine .taken hcount i ?_ (by simp)
      intro j
      by_cases hji : j = i
      · subst hji
        simp [HeldLock, granted, TaskSharedState.ended, TaskState.isCompleted, hj]
      · have := hnone j
        simpa [HeldLock, Function.update_of_ne hji, hji] using this

/-- The guard of lock task `i` has not begun its `Release()`. -/
theorem not_mem_releases (hg : GuardsOk s) {i : ℕ} (hx : some i ∈ s.unlocking) :
    some i ∉ s.releases :=
  fun hmem => List.disjoint_of_nodup_append hg.nodup hx hmem

/-- The permit has an owner where a guard releases what it may. -/
theorem taken_of_release (h : ExclusionInv s) (hi : MutexInv s) (hg : GuardsOk s)
    (hc : s.asyncSemaphore.critical = .free) {i : ℕ} (hx : some i ∈ s.unlocking)
    (hmay : MayRelease s i) :
    s.asyncSemaphore.currentCount = 0 ∧ ∃ h, ∀ j, HeldLock s j ↔ j = h := by
  cases h.exclusive with
  | free hcount hnone _ =>
    rcases hmay with hst | hhead
    · exact absurd ⟨hst, not_mem_releases hg hx⟩ (hnone i)
    · have hne : s.asyncSemaphore.waiters ≠ [] := by
        rintro hnil
        simp [hnil] at hhead
      have := hi.semaphore.zero (.inl hne)
      omega
  | taken hcount h hone _ => exact ⟨hcount, h, hone⟩
  | passing _ _ j hc' _ => simp [hc] at hc'

theorem release_step (h : ExclusionInv s) (hi : MutexInv s) (hg : GuardsOk s)
    (hc : s.asyncSemaphore.critical = .free) {i : ℕ} (hx : some i ∈ s.unlocking)
    (hmay : MayRelease s i) :
    ExclusionInv { s with
      asyncSemaphore := s.asyncSemaphore.release
      unlocking := s.unlocking.erase (some i), releases := s.releases ++ [some i] } := by
  obtain ⟨hcount, owner, hone⟩ := h.taken_of_release hi hg hc hx hmay
  have hmax := hi.maxCount
  have hqueued : s.asyncSemaphore.queued = s.asyncSemaphore.waiters.map Prod.fst := by
    simp [AsyncSemaphore.queued, hc, Critical.waiter]
  obtain ⟨hfull, -⟩ | ⟨-, hnil, heq⟩ | ⟨j, ws, -, hw, heq⟩ := hi.plain.release_eq
  · omega
  · -- nobody waits: the owner gives the permit back
    have hst : (s.asyncSemaphore.waitTask i).state.isCompleted := by
      rcases hmay with hst | hhead
      · exact hst
      · simp [hnil] at hhead
    have howner := (hone i).mp ⟨hst, not_mem_releases hg hx⟩
    rw [heq]
    refine ⟨.free ?_ ?_ hc, ?_⟩
    · simp [hcount]
    · rintro j ⟨hj, hnot⟩
      obtain ⟨hnot, hne⟩ := not_or.mp (List.mem_append.not.mp hnot)
      have hjo := (hone j).mp ⟨hj, hnot⟩
      simp [hjo, howner] at hne
    · intro j hj
      simp [hnil] at hj
  · have hj : j ∈ s.asyncSemaphore.queued := by simp [hqueued, hw]
    have hnodup := hi.plain.nodup
    rw [hqueued, hw] at hnodup
    obtain ⟨hjws, -⟩ := List.nodup_cons.mp hnodup
    have hpending := hi.plain.not_completed hj
    have hjrel : some j ∉ s.releases := h.queue j (by simp [hw])
    rw [heq]
    rcases hmay with hst | hhead
    · -- the owner releases, and the first in the queue is next
      have howner := (hone i).mp ⟨hst, not_mem_releases hg hx⟩
      have hne : ∀ k ∈ s.asyncSemaphore.queued, k ≠ i := by
        rintro k hk rfl
        have := hi.plain.not_completed hk
        rw [hst] at this
        cases this
      refine ⟨.passing hcount ?_ j rfl ?_, ?_⟩
      · rintro k ⟨hk, hnot⟩
        obtain ⟨hnot, hki⟩ := not_or.mp (List.mem_append.not.mp hnot)
        have hko := (hone k).mp ⟨hk, hnot⟩
        simp [hko, howner] at hki
      · simp [hjrel, hne j hj]
      · intro k hk
        have hk' : k ∈ s.asyncSemaphore.waiters.map Prod.fst := by
          rw [hw]
          exact List.mem_cons_of_mem _ hk
        simp [h.queue k hk', hne k (hqueued ▸ hk')]
    · -- the first in the queue gives up: this release completes its own lock task
      have hji : j = i := by simpa [hw] using hhead
      subst hji
      refine ⟨.taken hcount owner ?_ ?_, ?_⟩
      · intro k
        rw [← hone k]
        by_cases hkj : k = j
        · subst hkj
          simp [HeldLock, hpending]
        · simp [HeldLock, hkj]
      · intro k hk
        cases hk
        simp
      · intro k hk
        have hk' : k ∈ s.asyncSemaphore.waiters.map Prod.fst := by
          rw [hw]
          exact List.mem_cons_of_mem _ hk
        have hkj : k ≠ j := by
          rintro rfl
          exact hjws hk
        simp [h.queue k hk', hkj]

theorem step (h : ExclusionInv s) (hi : MutexInv s) (hg : GuardsOk s) {a : MutexLabel}
    (hown : ReleasesOwn s a) (hs : s.step a = some s') : ExclusionInv s' := by
  cases AsyncMutex.step_cases hs with
  | lock hc => exact h.lock_step hi hg hc
  | unlock | unlockThrows | destroy | destroyUnlocked => exact h.congr rfl rfl
  | @move g => exact absurd rfl (hown.1 g)
  | @release x hx hc =>
    obtain ⟨i, -, rfl⟩ := hg.known x (List.mem_append.mpr (.inl hx))
    exact h.release_step hi hg hc hx (hown.2 i rfl)
  | advance hs => exact h.advance_step hi hg hs

end ExclusionInv

theorem reachable_exclusionInv {s : AsyncMutex ε} (h : (mutexMachine ε).Reachable ReleasesOwn s) :
    ExclusionInv s := by
  refine h.invariant_with (Q := fun s => MutexInv s ∧ GuardsOk s) ?_ ?_ ?_
  · intro s hs
    exact ⟨reachable_mutexInv hs, reachable_guardsOk (hs.mono fun _ _ h => h.1)⟩
  · exact ⟨.free rfl (fun i hi => nomatch hi.1) rfl, nofun⟩
  · rintro s a s' ⟨hi, hg⟩ he hown hs
    exact he.step hi hg hown hs

/-! ## At most one guard is held -/

/-- A guard that is not destroyed or unlocked while it waits behind another one gives the
    permit to the first in the queue, and somebody else still has it. -/
theorem two_held_of_release {s s' : AsyncMutex ε} (h : ExclusionInv s) (hi : MutexInv s)
    (hg : GuardsOk s) {i : ℕ} (hmay : ¬ MayRelease s i)
    (hs : s.step (.release (some i)) = some s') :
    ∃ s'', s'.step .advance = some s'' ∧ ∃ g g', g ≠ g' ∧ Held s'' g ∧ Held s'' g' := by
  simp only [AsyncMutex.step] at hs
  split_ifs at hs with hen
  obtain ⟨hx, hfree⟩ := hen
  have hc := s.lockFree_iff.mp hfree
  obtain ⟨hst, hhead⟩ := not_or.mp hmay
  have hst := Bool.eq_false_iff.mpr hst
  have hmade := hg.made
  rw [hc] at hmade
  simp only [Critical.making, Nat.add_zero] at hmade
  obtain ⟨i', hlt, heq'⟩ := hg.known _ (List.mem_append.mpr (.inl hx))
  cases heq'
  have hmem := mem_waiters_of_not_completed hi.plain hc (by omega) hst
  have hne : s.asyncSemaphore.waiters ≠ [] := by
    rintro hnil
    simp [hnil] at hmem
  have hzero := hi.semaphore.zero (.inl hne)
  -- somebody has the permit
  obtain ⟨owner, hone⟩ : ∃ owner, ∀ j, HeldLock s j ↔ j = owner := by
    cases h.exclusive with
    | free hcount => omega
    | taken _ owner hone _ => exact ⟨owner, hone⟩
    | passing _ _ j hc' _ => simp [hc] at hc'
  have howner := (hone owner).mpr rfl
  have hmax := hi.maxCount
  obtain ⟨hfull, -⟩ | ⟨-, hnil, -⟩ | ⟨j, ws, -, hw, heq⟩ := hi.plain.release_eq
  · omega
  · exact absurd hnil hne
  · have hj : j ∈ s.asyncSemaphore.queued := by simp [AsyncSemaphore.queued, hw]
    have hpending := hi.plain.not_completed hj
    have hji : j ≠ i := by
      rintro rfl
      simp [hw] at hhead
    have hjo : owner ≠ j := howner.ne hpending
    have hoi : owner ≠ i := howner.ne hst
    have hjlt : j < s.constructed := by
      have := hi.semaphore.queuedIssued j hj
      omega
    have holt : owner < s.constructed := by
      by_contra hge
      have hfresh := hi.semaphore.fresh owner (by omega)
      exact howner.ne (by rw [hfresh]; rfl) rfl
    have hpopped : s.asyncSemaphore.release.critical = .popped j none := by rw [heq]
    cases hs
    refine ⟨_, AsyncMutex.advance_popped (hi.plain.release hc) hpopped, owner, j, hjo, ?_, ?_⟩
    · refine ⟨owner, hg.lockTask owner holt, ?_, ?_⟩
      · simpa [heq, Function.update_of_ne hjo] using howner.1
      · simp [howner.2, hoi]
    · refine ⟨j, hg.lockTask j hjlt, ?_, ?_⟩
      · simp [granted, TaskSharedState.ended, TaskState.isCompleted]
      · have := h.queue j (by simp [hw])
        simp [this, hji]

/-- In every run without moves in which each `Release()` is called for a guard whose lock
    task has completed or is the first in the queue, at most one guard is held. The
    condition is needed: the first `Release()` that does not meet it leaves two guards
    held. -/
theorem mutual_exclusion {s : AsyncMutex ε} (h : (mutexMachine ε).Reachable ReleasesOwn s) :
    (∀ g g', Held s g → Held s g' → g = g') ∧
    ∀ i s', ¬ MayRelease s i → (mutexMachine ε).step s (.release (some i)) = some s' →
      ∃ s'', (mutexMachine ε).step s' .advance = some s'' ∧
        ∃ g g', g ≠ g' ∧ Held s'' g ∧ Held s'' g' := by
  have hi := reachable_mutexInv h
  have hg := reachable_guardsOk (h.mono fun _ _ h => h.1)
  have he := reachable_exclusionInv h
  refine ⟨?_, fun i s' hmay hs => two_held_of_release he hi hg hmay hs⟩
  rintro g g' ⟨i, htask, hheld⟩ ⟨i', htask', hheld'⟩
  have hlock : ∀ {g i}, (s.guards g).lockTask = some i → i = g := by
    intro g i hgi
    by_cases hlt : g < s.constructed
    · rw [hg.lockTask g hlt] at hgi
      exact (Option.some.inj hgi).symm
    · rw [hg.unmade g (by omega)] at hgi
      cases hgi
  have hsame : i = i' := by
    cases he.exclusive with
    | free _ hnone => exact absurd hheld (hnone i)
    | taken _ owner hone _ => rw [(hone i).mp hheld, (hone i').mp hheld']
    | passing _ hnone => exact absurd hheld (hnone i)
  rw [← hlock htask, ← hlock htask', hsame]

/-- A guard is locked, a second one waits, and the first is unlocked: the second has it. -/
theorem mutual_exclusion_handOver :
    ∃ s : AsyncMutex Empty,
      (mutexMachine Empty).Reachable ReleasesOwn s ∧ Held s 1 ∧ ¬ Held s 0 := by
  have hr : (mutexMachine Empty).Reachable ReleasesOwn _ :=
    .head (a := .lock) rfl ⟨nofun, nofun⟩ <| .head (a := .lock) rfl ⟨nofun, nofun⟩ <|
    .head (a := .advance) rfl ⟨nofun, nofun⟩ <| .head (a := .unlock 0) rfl ⟨nofun, nofun⟩ <|
    .head (a := .release (some 0)) rfl ⟨nofun, fun i hi => by cases hi; exact .inl rfl⟩ <|
    .head (a := .advance) rfl ⟨nofun, nofun⟩ .refl
  refine ⟨_, hr, ⟨1, rfl, rfl, by decide⟩, fun h0 => ?_⟩
  exact absurd ((mutual_exclusion hr).1 0 1 h0 ⟨1, rfl, rfl, by decide⟩) Nat.zero_ne_one

/-- Three guards; the first is locked, the others wait. The last one is destroyed: the first
    and the second are both held. -/
theorem not_mutual_exclusion :
    ∃ s : AsyncMutex Empty, (mutexMachine Empty).Reachable Unmoved s ∧ Held s 0 ∧ Held s 1 := by
  have hr : (mutexMachine Empty).Reachable Unmoved _ :=
    .head (a := .lock) rfl nofun <| .head (a := .lock) rfl nofun <|
    .head (a := .advance) rfl nofun <| .head (a := .lock) rfl nofun <|
    .head (a := .advance) rfl nofun <| .head (a := .destroy 2) rfl nofun <|
    .head (a := .release (some 2)) rfl nofun <| .head (a := .advance) rfl nofun .refl
  exact ⟨_, hr, ⟨0, rfl, rfl, by decide⟩, ⟨1, rfl, rfl, by decide⟩⟩

end AsyncCpp.AsyncPrimitives
