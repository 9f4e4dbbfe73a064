import AsyncCpp.AsyncPrimitives.SemaphoreInvariant

/-!
# `AsyncMutex`

Model of AsyncPrimitives/AsyncMutex.cpp over the machine of its semaphore. `Lock()`
and the `Release()` of a guard run in the steps of the semaphore; between the
exchange of `_lockTaskPtr` in `unlockNow` and the `Release()` after it every other
thread may move. A mutex never hands a token to its semaphore, so the semaphore's
type of tokens is empty.

Guards are numbered in the order they are constructed, lock tasks in the order of
the `WaitAsync` calls.

Results:
* `reachable_mutexInv`: in every run the queue holds exactly the pending lock tasks, and
  a `Release` grants the first of them (`Plain.popped_advance`).
-/

namespace AsyncCpp.AsyncPrimitives

open Interleaving Tasks

variable {ε : Type*}

/-! ## The mutex and its guards -/

/-- `AsyncLockGuard` (AsyncMutex.h:28-33): its lock task, empty once it is moved from, and
    whether `_lockTaskPtr` points to it. -/
structure AsyncLockGuard where
  lockTask : Option ℕ := none
  lockTaskPtr : Bool := false
  destroyed : Bool := false

/-- The mutex, its guards, and the lock tasks of the guards that are between the exchange
    in `unlockNow` and the `Release()` after it. `releases` lists the lock tasks of the
    guards whose `Release()` has begun, `unlockLog` what `Unlock()` calls returned. -/
structure AsyncMutex (ε : Type*) where
  asyncSemaphore : AsyncSemaphore Empty ε :=
    { maxCount := 1, initialCount := 1, currentCount := 1 }
  guards : ℕ → AsyncLockGuard := fun _ => {}
  constructed : ℕ := 0
  unlocking : List (Option ℕ) := []
  releases : List (Option ℕ) := []
  unlockLog : List (Except (Exn ε) Unit) := []

inductive MutexLabel where
  /-- `Lock()` is called. -/
  | lock
  /-- `guard.Unlock()` or `mutex.Unlock(guard)` up to the `Release()`. -/
  | unlock (g : ℕ)
  /-- The destructor of the guard up to the `Release()`. -/
  | destroy (g : ℕ)
  /-- A guard is move-constructed from `g`. -/
  | move (g : ℕ)
  /-- A guard that held lock task `x` calls `Release()`. -/
  | release (x : Option ℕ)
  /-- The call inside the semaphore's critical section goes on. -/
  | advance

/-- `unlockNow` of a guard without `_lockTaskPtr` (AsyncMutex.cpp:37). -/
def alreadyUnlocked : Exn ε :=
  .logicError "Attempt to unlock already unlocked or moved AsyncLockGuard."

namespace AsyncMutex

@[simp] def setGuard (s : AsyncMutex ε) (g : ℕ) (guard : AsyncLockGuard) : AsyncMutex ε :=
  { s with guards := Function.update s.guards g guard }

/-- `AsyncLockGuard(this, lockTask)` (AsyncMutex.cpp:24-30). -/
@[simp] def construct (s : AsyncMutex ε) (i : ℕ) : AsyncMutex ε :=
  { s.setGuard s.constructed { lockTask := some i, lockTaskPtr := true } with
    constructed := s.constructed + 1 }

/-- `unlockNow` up to the `Release()` (AsyncMutex.cpp:32-45). -/
def unlockNow (s : AsyncMutex ε) (g : ℕ) (throwIfAlreadyUnlocked : Bool) :
    Except (Exn ε) (AsyncMutex ε) :=
  if (s.guards g).lockTaskPtr then
    .ok { s.setGuard g { s.guards g with lockTaskPtr := false } with
      unlocking := s.unlocking ++ [(s.guards g).lockTask] }
  else if throwIfAlreadyUnlocked then .error alreadyUnlocked
  else .ok s

/-- `Lock()` up to the end of the critical section of `WaitAsync()`, or to where it waits to
    queue the new waiter (AsyncMutex.cpp:51-55). -/
def lock (s : AsyncMutex ε) : AsyncMutex ε :=
  let s' := { s with asyncSemaphore := s.asyncSemaphore.waitAsync none }
  match s'.asyncSemaphore.critical with
  | .free => s'.construct s.asyncSemaphore.issued
  | _ => s'

/-- The call in the semaphore's critical section goes on; a `Lock()` that leaves it
    constructs its guard. -/
def advance (s : AsyncMutex ε) : Option (AsyncMutex ε) :=
  match s.asyncSemaphore.advance with
  | none => none
  | some asyncSemaphore =>
    match s.asyncSemaphore.critical with
    | .emplacing i _ => some ({ s with asyncSemaphore }.construct i)
    | _ => some { s with asyncSemaphore }

/-- The move constructor (AsyncMutex.cpp:5-12). -/
def move (s : AsyncMutex ε) (g : ℕ) : AsyncMutex ε :=
  { s with
    guards := Function.update
      (Function.update s.guards s.constructed
        { lockTask := (s.guards g).lockTask, lockTaskPtr := true })
      g { s.guards g with lockTask := none, lockTaskPtr := false }
    constructed := s.constructed + 1 }

/-- Guard `g` is constructed and not destroyed. -/
def Alive (s : AsyncMutex ε) (g : ℕ) : Prop := g < s.constructed ∧ ¬ (s.guards g).destroyed

instance (s : AsyncMutex ε) (g : ℕ) : Decidable (s.Alive g) :=
  inferInstanceAs (Decidable (_ ∧ _))

/-- No thread is inside `_waitersLock`. -/
def lockFree (s : AsyncMutex ε) : Bool :=
  match s.asyncSemaphore.critical with
  | .free => true
  | _ => false

def step (s : AsyncMutex ε) : MutexLabel → Option (AsyncMutex ε)
  | .lock => if s.lockFree then some s.lock else none
  | .unlock g =>
    if s.Alive g then
      match s.unlockNow g true with
      | .ok s' => some { s' with unlockLog := s.unlockLog ++ [.ok ()] }
      | .error e => some { s with unlockLog := s.unlockLog ++ [.error e] }
    else none
  | .destroy g =>
    if s.Alive g then
      match s.unlockNow g false with
      | .ok s' => some (s'.setGuard g { s'.guards g with destroyed := true })
      | .error _ => none
    else none
  | .move g => if s.Alive g then some (s.move g) else none
  | .release x =>
    if x ∈ s.unlocking ∧ s.lockFree then
      some { s with
        asyncSemaphore := s.asyncSemaphore.release
        unlocking := s.unlocking.erase x, releases := s.releases ++ [x] }
    else none
  | .advance => s.advance

end AsyncMutex

def mutexMachine (ε : Type*) : Machine (AsyncMutex ε) MutexLabel where
  init := {}
  step := AsyncMutex.step

/-! ## A semaphore without tokens -/

/-- What the absence of tokens says: no registrations, no cancelled wait tasks, and the
    queue holds exactly the wait tasks that are not granted. -/
structure Plain (s : AsyncSemaphore Empty ε) : Prop where
  waiters : ∀ w ∈ s.waiters, w.2 = none
  critical : s.critical = .free ∨ (∃ i, s.critical = .emplacing i none) ∨
    ∃ i, s.critical = .popped i none
  nodup : s.queued.Nodup
  queued : ∀ i ∈ s.queued, s.waitTask i = {}
  granted : ∀ i < s.issued, i ∉ s.queued → s.waitTask i = granted

namespace Plain

variable {s s' : AsyncSemaphore Empty ε}

/-- `Release` grants the waiter it has popped. -/
theorem popped_advance (h : Plain s) {i : ℕ} (hc : s.critical = .popped i none) :
    s.advance = some { s with
      waitTask := Function.update s.waitTask i AsyncPrimitives.granted, critical := .free
      released := s.released + 1 } := by
  have hpending : s.waitTask i = {} :=
    h.queued i (by simp [AsyncSemaphore.queued, hc, Critical.waiter])
  simp only [AsyncSemaphore.advance, hc, hpending, AsyncSemaphore.loopTest,
    AsyncSemaphore.trySetResult]
  rfl

/-- The two ways a call goes on: `WaitAsync` queues its waiter, or `Release` grants the one
    it has popped and leaves. -/
theorem advance_eq (h : Plain s) (hs : s.advance = some s') :
    (∃ i, s.critical = .emplacing i none ∧
      s' = { s with waiters := s.waiters ++ [(i, none)], critical := .free }) ∨
    ∃ i, s.critical = .popped i none ∧
      s' = { s with
        waitTask := Function.update s.waitTask i AsyncPrimitives.granted, critical := .free
        released := s.released + 1 } := by
  rcases h.critical with hc | ⟨i, hc⟩ | ⟨i, hc⟩
  · simp [AsyncSemaphore.advance, hc] at hs
  · simp only [AsyncSemaphore.advance, hc] at hs
    cases hs
    exact .inl ⟨i, hc, rfl⟩
  · rw [h.popped_advance hc] at hs
    cases hs
    exact .inr ⟨i, hc, rfl⟩

/-- A `Release` that finds a waiter takes the first one. -/
theorem release_eq (h : Plain s) :
    (s.currentCount = s.maxCount ∧ s.release = { s with rejected := s.rejected + 1 }) ∨
    (s.currentCount ≠ s.maxCount ∧ s.waiters = [] ∧
      s.release = { s with currentCount := s.currentCount + 1, released := s.released + 1 }) ∨
    ∃ i ws, s.currentCount ≠ s.maxCount ∧ s.waiters = (i, none) :: ws ∧
      s.release = { s with waiters := ws, critical := .popped i none } := by
  unfold AsyncSemaphore.release
  split_ifs with hfull hempty
  · exact .inl ⟨hfull, rfl⟩
  · exact .inr (.inl ⟨hfull, List.isEmpty_iff.mp hempty, rfl⟩)
  · refine .inr (.inr ?_)
    cases hw : s.waiters with
    | nil => simp [hw] at hempty
    | cons w ws =>
      obtain ⟨i, r⟩ := w
      have hr : r = none := h.waiters (i, r) (by rw [hw]; exact List.mem_cons_self)
      subst hr
      exact ⟨i, ws, hfull, rfl, by simp [AsyncSemaphore.popFront, hw]⟩

/-- `WaitAsync()` takes a permit, or goes on to queue its waiter. -/
theorem waitAsync_eq (s : AsyncSemaphore Empty ε) :
    (0 < s.currentCount ∧
      s.waitAsync none = { s with
        currentCount := s.currentCount - 1, issued := s.issued + 1
        waitTask := Function.update s.waitTask s.issued AsyncPrimitives.granted }) ∨
    (¬ 0 < s.currentCount ∧
      s.waitAsync none =
        { s with issued := s.issued + 1, critical := .emplacing s.issued none }) := by
  unfold AsyncSemaphore.waitAsync
  split_ifs with hpos
  · exact .inl ⟨hpos, rfl⟩
  · exact .inr ⟨hpos, rfl⟩

theorem advance (h : Plain s) (hs : s.advance = some s') : Plain s' := by
  have hnodup := h.nodup
  have hqueued := h.queued
  have hgranted := h.granted
  obtain ⟨i, hc, rfl⟩ | ⟨i, hc, rfl⟩ := h.advance_eq hs
  · have hmem : ∀ j, j ∈ s.waiters.map Prod.fst ++ [i] ↔ j ∈ s.queued := by
      intro j
      simp [AsyncSemaphore.queued, hc, Critical.waiter, or_comm]
    refine ⟨?_, .inl rfl, ?_, ?_, ?_⟩
    · intro w hw
      rcases List.mem_append.mp hw with hw | hw
      · exact h.waiters w hw
      · rw [List.mem_singleton.mp hw]
    · simp only [AsyncSemaphore.queued, hc, Critical.waiter] at hnodup ⊢
      rw [List.map_append, List.nil_append]
      exact List.perm_append_comm.nodup_iff.mpr hnodup
    · intro j hj
      exact hqueued j ((hmem j).mp (by simpa [AsyncSemaphore.queued, Critical.waiter] using hj))
    · intro j hj hnot
      refine hgranted j hj fun hmem' => hnot ?_
      simpa [AsyncSemaphore.queued, Critical.waiter] using (hmem j).mpr hmem'
  · have hq : s.queued = i :: s.waiters.map Prod.fst := by
      simp [AsyncSemaphore.queued, hc, Critical.waiter]
    rw [hq] at hnodup hqueued hgranted
    obtain ⟨hi, hnodup⟩ := List.nodup_cons.mp hnodup
    refine ⟨h.waiters, .inl rfl, by simpa [AsyncSemaphore.queued, Critical.waiter] using hnodup,
      ?_, ?_⟩
    · intro j hj
      have hj : j ∈ s.waiters.map Prod.fst := by
        simpa [AsyncSemaphore.queued, Critical.waiter] using hj
      have hne : j ≠ i := by
        rintro rfl
        exact hi hj
      simpa [Function.update_of_ne hne] using hqueued j (List.mem_cons_of_mem _ hj)
    · intro j hj hnot
      by_cases hji : j = i
      · subst hji
        simp
      · have hnot : j ∉ s.waiters.map Prod.fst := by
          simpa [AsyncSemaphore.queued, Critical.waiter] using hnot
        simpa [Function.update_of_ne hji] using hgranted j hj (by simp [hji, hnot])

theorem release (h : Plain s) (hc : s.critical = .free) : Plain s.release := by
  have hnodup := h.nodup
  have hqueued := h.queued
  have hgranted := h.granted
  obtain ⟨-, heq⟩ | ⟨-, -, heq⟩ | ⟨i, ws, -, hw, heq⟩ := h.release_eq
  · rw [heq]
    exact ⟨h.waiters, .inl hc, hnodup, hqueued, hgranted⟩
  · rw [heq]
    exact ⟨h.waiters, .inl hc, hnodup, hqueued, hgranted⟩
  · rw [heq]
    have hq : s.queued = i :: ws.map Prod.fst := by
      simp [AsyncSemaphore.queued, hc, hw, Critical.waiter]
    rw [hq] at hnodup hqueued hgranted
    exact ⟨fun w hmem => h.waiters w (by rw [hw]; exact List.mem_cons_of_mem _ hmem),
      .inr (.inr ⟨i, rfl⟩), hnodup, hqueued, hgranted⟩

theorem waitAsync (h : Plain s) (hi : SemaphoreInv s) (hc : s.critical = .free) :
    Plain (s.waitAsync none) := by
  have hfresh := hi.fresh s.issued le_rfl
  have hissued := hi.queuedIssued
  have hgranted := h.granted
  obtain ⟨hpos, heq⟩ | ⟨-, heq⟩ := waitAsync_eq s
  · rw [heq]
    refine ⟨h.waiters, .inl hc, h.nodup, ?_, ?_⟩
    · intro i hmem
      have hne : i ≠ s.issued := Nat.ne_of_lt (hissued i hmem)
      simpa [Function.update_of_ne hne] using h.queued i hmem
    · intro i hlt hnot
      by_cases hne : i = s.issued
      · subst hne
        simp
      · have hlt : i < s.issued + 1 := hlt
        simpa [Function.update_of_ne hne] using hgranted i (by omega) hnot
  · rw [heq]
    have hq : s.queued = s.waiters.map Prod.fst := by
      simp [AsyncSemaphore.queued, hc, Critical.waiter]
    have hq' : AsyncSemaphore.queued
        { s with issued := s.issued + 1, critical := .emplacing s.issued none } =
          s.issued :: s.queued := by
      rw [hq]
      rfl
    refine ⟨h.waiters, .inr (.inl ⟨_, rfl⟩), ?_, ?_, ?_⟩
    · rw [hq']
      exact List.nodup_cons.mpr ⟨fun hmem => absurd (hissued _ hmem) (lt_irrefl _), h.nodup⟩
    · rw [hq']
      intro i hmem
      rcases List.mem_cons.mp hmem with rfl | hmem
      · exact hfresh
      · exact h.queued i hmem
    · rw [hq']
      intro i hlt hnot
      obtain ⟨hne, hnot⟩ := not_or.mp (List.mem_cons.not.mp hnot)
      have hlt : i < s.issued + 1 := hlt
      exact hgranted i (by omega) hnot

end Plain

/-! ## The mutex -/

/-- `Lock()` has its lock task and has not constructed the guard. -/
def Critical.making {K : Type*} : Critical K → ℕ
  | .emplacing _ _ => 1
  | _ => 0

/-- `Release()` moves its lock task from one list to the other. -/
theorem release_perm {x : Option ℕ} {l m : List (Option ℕ)} (h : x ∈ l) :
    (l.erase x ++ (m ++ [x])).Perm (l ++ m) := by
  have h1 : (m ++ [x]).Perm (x :: m) := List.perm_append_singleton x m
  have h2 : (l.erase x ++ x :: m).Perm (x :: (l.erase x ++ m)) := List.perm_middle
  have h3 : (x :: l.erase x).Perm l := (List.perm_cons_erase h).symm
  exact ((h1.append_left _).trans h2).trans (h3.append_right m)

/-- What holds of the semaphore of a mutex in every run. -/
structure MutexInv (s : AsyncMutex ε) : Prop where
  semaphore : SemaphoreInv s.asyncSemaphore
  maxCount : s.asyncSemaphore.maxCount = 1
  initialCount : s.asyncSemaphore.initialCount = 1
  plain : Plain s.asyncSemaphore

theorem AsyncMutex.lockFree_iff (s : AsyncMutex ε) :
    s.lockFree = true ↔ s.asyncSemaphore.critical = .free := by
  unfold AsyncMutex.lockFree
  split <;> simp_all

/-- A `Release()` in the middle of its critical section grants the lock task it has popped. -/
theorem AsyncMutex.advance_popped {s : AsyncMutex ε} (h : Plain s.asyncSemaphore) {i : ℕ}
    (hc : s.asyncSemaphore.critical = .popped i none) :
    s.advance = some { s with asyncSemaphore := { s.asyncSemaphore with
      waitTask := Function.update s.asyncSemaphore.waitTask i granted, critical := .free
      released := s.asyncSemaphore.released + 1 } } := by
  simp only [AsyncMutex.advance, h.popped_advance hc, hc]

/-- A call that goes on is a `Lock()` that queues its waiter, or a `Release()` that grants the
    lock task it has popped. -/
theorem AsyncMutex.advance_eq {s s' : AsyncMutex ε} (h : Plain s.asyncSemaphore)
    (hs : s.advance = some s') :
    (∃ i, s.asyncSemaphore.critical = .emplacing i none ∧
      s' = AsyncMutex.construct { s with asyncSemaphore := { s.asyncSemaphore with
        waiters := s.asyncSemaphore.waiters ++ [(i, none)], critical := .free } } i) ∨
    ∃ i, s.asyncSemaphore.critical = .popped i none ∧
      s' = { s with asyncSemaphore := { s.asyncSemaphore with
        waitTask := Function.update s.asyncSemaphore.waitTask i granted, critical := .free
        released := s.asyncSemaphore.released + 1 } } := by
  simp only [AsyncMutex.advance] at hs
  cases hadv : s.asyncSemaphore.advance with
  | none => simp [hadv] at hs
  | some sem =>
    obtain ⟨i, hc, rfl⟩ | ⟨i, hc, rfl⟩ := h.advance_eq hadv
    · simp only [hadv, hc] at hs
      cases hs
      exact .inl ⟨i, hc, rfl⟩
    · simp only [hadv, hc] at hs
      cases hs
      exact .inr ⟨i, hc, rfl⟩

/-- What a step of the mutex does. -/
inductive MutexStep (s : AsyncMutex ε) : MutexLabel → AsyncMutex ε → Prop
  | lock (hc : s.asyncSemaphore.critical = .free) : MutexStep s .lock s.lock
  | unlock {g : ℕ} (halive : s.Alive g) (hptr : (s.guards g).lockTaskPtr) :
    MutexStep s (.unlock g) { s.setGuard g { s.guards g with lockTaskPtr := false } with
      unlocking := s.unlocking ++ [(s.guards g).lockTask]
      unlockLog := s.unlockLog ++ [.ok ()] }
  | unlockThrows {g : ℕ} :
    MutexStep s (.unlock g) { s with unlockLog := s.unlockLog ++ [.error alreadyUnlocked] }
  | destroy {g : ℕ} (halive : s.Alive g) (hptr : (s.guards g).lockTaskPtr) :
    MutexStep s (.destroy g)
      { s.setGuard g { s.guards g with lockTaskPtr := false, destroyed := true } with
        unlocking := s.unlocking ++ [(s.guards g).lockTask] }
  | destroyUnlocked {g : ℕ} (halive : s.Alive g) (hptr : (s.guards g).lockTaskPtr = false) :
    MutexStep s (.destroy g) (s.setGuard g { s.guards g with destroyed := true })
  | move {g : ℕ} (halive : s.Alive g) : MutexStep s (.move g) (s.move g)
  | release {x : Option ℕ} (hx : x ∈ s.unlocking) (hc : s.asyncSemaphore.critical = .free) :
    MutexStep s (.release x) { s with
      asyncSemaphore := s.asyncSemaphore.release
      unlocking := s.unlocking.erase x, releases := s.releases ++ [x] }
  | advance {s' : AsyncMutex ε} (hs : s.advance = some s') : MutexStep s .advance s'

theorem AsyncMutex.step_cases {s s' : AsyncMutex ε} {a : MutexLabel} (hs : s.step a = some s') :
    MutexStep s a s' := by
  cases a with
  | lock =>
    simp only [AsyncMutex.step] at hs
    split_ifs at hs with hfree
    cases hs
    exact .lock (s.lockFree_iff.mp hfree)
  | unlock g =>
    simp only [AsyncMutex.step, AsyncMutex.unlockNow] at hs
    split_ifs at hs with halive hptr <;> cases hs
    · exact .unlock halive hptr
    · exact .unlockThrows
  | destroy g =>
    simp only [AsyncMutex.step, AsyncMutex.unlockNow] at hs
    split_ifs at hs with halive hptr <;> cases hs
    · simpa using MutexStep.destroy halive hptr
    · exact .destroyUnlocked halive (Bool.eq_false_iff.mpr hptr)
  | move g =>
    simp only [AsyncMutex.step] at hs
    split_ifs at hs with halive
    cases hs
    exact .move halive
  | release x =>
    simp only [AsyncMutex.step] at hs
    split_ifs at hs with hen
    cases hs
    exact .release hen.1 (s.lockFree_iff.mp hen.2)
  | advance => exact .advance hs

namespace MutexInv

variable {s s' : AsyncMutex ε}

theorem step (h : MutexInv s) {a : MutexLabel} (hs : s.step a = some s') : MutexInv s' := by
  obtain ⟨hsem, hmax, hinit, hplain⟩ := h
  cases AsyncMutex.step_cases hs with
  | lock hc =>
    have hlater := Later.waitAsync hsem none
    have hs' : s.lock.asyncSemaphore = s.asyncSemaphore.waitAsync none := by
      simp only [AsyncMutex.lock]
      split <;> rfl
    exact ⟨hs' ▸ hsem.waitAsync hc none, hs' ▸ hlater.maxCount.trans hmax,
      hs' ▸ hlater.initialCount.trans hinit, hs' ▸ hplain.waitAsync hsem hc⟩
  | unlock | unlockThrows | destroy | destroyUnlocked | move =>
    exact ⟨hsem, hmax, hinit, hplain⟩
  | release hx hc =>
    have hlater := Later.release s.asyncSemaphore
    exact ⟨hsem.release hc, hlater.maxCount.trans hmax, hlater.initialCount.trans hinit,
      hplain.release hc⟩
  | advance hs =>
    simp only [AsyncMutex.advance] at hs
    cases hadv : s.asyncSemaphore.advance with
    | none => simp [hadv] at hs
    | some sem =>
      have hlater := Later.advance hadv
      have hsem' : s'.asyncSemaphore = sem := by
        simp only [hadv] at hs
        split at hs <;> (cases hs; rfl)
      exact ⟨hsem' ▸ hsem.advance hadv, hsem' ▸ hlater.maxCount.trans hmax,
        hsem' ▸ hlater.initialCount.trans hinit, hsem' ▸ hplain.advance hadv⟩

end MutexInv

theorem reachable_mutexInv {G : AsyncMutex ε → MutexLabel → Prop} {s : AsyncMutex ε}
    (h : (mutexMachine ε).Reachable G s) : MutexInv s := by
  refine h.invariant ?_ fun s a s' hi _ hs => hi.step hs
  have h0 : AsyncSemaphore.construct 1 1 = .ok (mutexMachine ε).init.asyncSemaphore := rfl
  exact ⟨(construct_inv h0).1, rfl, rfl,
    ⟨nofun, .inl rfl, List.nodup_nil, nofun, fun i hi => absurd hi (Nat.not_lt_zero i)⟩⟩

end AsyncCpp.AsyncPrimitives
