import AsyncCpp.Schedulers.SimpleThreadPool

/-!
# `Stop` and the workers that wait

`Stop` writes `_quitRequest` and calls `notify_all` without `_lockRoot`
(SimpleThreadPool.cpp:107-108). A worker holds `_lockRoot` from its look at `_quitRequest` to
its parking (lines 63-67), so both steps of `Stop` fit between the two.

The machine is that of the pool, with `EnqueueItem` cut into lock, push, `notify_one` and
unlock. Calls of `EnqueueItem` exclude one another, so the one inside its critical section is
all there is to know of them.

Results:
* `no_worker_sleeps_through_stop_iff`: after `notify_all` no worker is parked for good, in any
  run, exactly when no worker was about to park; then `Stop` can always go on to its end.
* `not_no_worker_sleeps_through_stop`: one worker, about to park.
-/

namespace AsyncCpp.Schedulers

open Interleaving

/-- Where the call of `EnqueueItem` that holds `_lockRoot` is (SimpleThreadPool.cpp:117-122). -/
inductive EnqueuePc where
  | push
  | notifyOne
  | unlock
  deriving DecidableEq, Repr

/-- The pool, and the call of `EnqueueItem` that holds `_lockRoot`. -/
structure NotifySystem (n : ℕ) where
  pool : SimpleThreadPool n := {}
  enqueuing : Option EnqueuePc := none

inductive NotifyLabel (n : ℕ) where
  | start
  /-- A call of `EnqueueItem` locks `_lockRoot`. -/
  | enqueueItem
  /-- The call of `EnqueueItem` that holds `_lockRoot` goes on. `notify_one` wakes `w`. -/
  | enqueueStep (w : Option (Fin n))
  | stop
  /-- `Stop` goes on. -/
  | stopStep
  /-- Worker `w` goes on. -/
  | work (w : Fin n)
  | spuriousWake (w : Fin n)

/-- The worker is going to lock `_lockRoot`. -/
def WorkerPc.locks : WorkerPc → Bool
  | .lock | .woken => true
  | _ => false

/-- The worker holds `_lockRoot`. -/
def WorkerPc.holdsLock : WorkerPc → Bool
  | .whileTest | .wait | .ifTest | .take => true
  | _ => false

theorem WorkerPc.of_holdsLock {p : WorkerPc} (h : p.holdsLock = true) :
    p.locks = false ∧ p ≠ .exited ∧ p ≠ .notCreated := by
  cases p <;> simp [holdsLock, locks] at h ⊢

namespace NotifySystem

variable {n : ℕ}

/-- `EnqueueItem` goes on. -/
def enqueueStep (s : NotifySystem n) (w : Option (Fin n)) : Option (NotifySystem n) :=
  match s.enqueuing, w with
  | some .push, none =>
    some { pool := { s.pool with
             innerQueue := s.pool.innerQueue ++ [s.pool.enqueued], enqueued := s.pool.enqueued + 1 }
           enqueuing := some .notifyOne }
  | some .notifyOne, none =>
    if ∀ u, s.pool.pc u ≠ .parked then some { s with enqueuing := some .unlock } else none
  | some .notifyOne, some w =>
    if s.pool.pc w = .parked then
      some { pool := s.pool.goto w .woken, enqueuing := some .unlock }
    else none
  | some .unlock, none => some { s with enqueuing := none }
  | _, _ => none

/-- One step. `_lockRoot` is taken by a worker, or by a call of `EnqueueItem`. -/
def step (s : NotifySystem n) : NotifyLabel n → Option (NotifySystem n)
  | .start => (s.pool.step .start).map fun p => { s with pool := p }
  | .enqueueItem =>
    if s.pool.lockRoot.isNone ∧ s.enqueuing.isNone then some { s with enqueuing := some .push }
    else none
  | .enqueueStep w => s.enqueueStep w
  | .stop => (s.pool.step .stop).map fun p => { s with pool := p }
  | .stopStep => (s.pool.step .stopStep).map fun p => { s with pool := p }
  | .work w =>
    if (s.pool.pc w).locks ∧ s.enqueuing.isSome then none
    else (s.pool.step (.work w)).map fun p => { s with pool := p }
  | .spuriousWake w => (s.pool.step (.spuriousWake w)).map fun p => { s with pool := p }

/-- `Stop` has set `_quitRequest` and called `notify_all`, and is not over. -/
def Notified (s : NotifySystem n) : Prop :=
  s.pool.quitRequest = true ∧ ∃ i, s.pool.stopPc = .join i

/-- After `notify_all` of `Stop` a worker is parked, and no call of `EnqueueItem` is before its
    `notify_one`. -/
def LeftAsleep (s : NotifySystem n) : Prop :=
  s.Notified ∧ (∃ w, s.pool.pc w = .parked) ∧
    s.enqueuing ≠ some .push ∧ s.enqueuing ≠ some .notifyOne

end NotifySystem

/-- The machine of a new pool of `n` workers. -/
def notifyMachine (n : ℕ) : Machine (NotifySystem n) (NotifyLabel n) where
  init := {}
  step := NotifySystem.step

/-! ## `_lockRoot` -/

namespace SimpleThreadPool

variable {n : ℕ} {s s' : SimpleThreadPool n} {w : Fin n}

/-- What a step of a worker does to `_lockRoot`. -/
inductive WorkMove (s : SimpleThreadPool n) (w : Fin n) : SimpleThreadPool n → Prop
  | locked (hpc : (s.pc w).locks) (hfree : s.lockRoot = none) :
    WorkMove s w { s.goto w .whileTest with lockRoot := some w }
  | tested (hpc : s.pc w = .whileTest)
    (hq : s.quitRequest = true ∨ s.innerQueue ≠ []) : WorkMove s w (s.goto w .ifTest)
  | waits (hpc : s.pc w = .whileTest) (hq : s.quitRequest = false) : WorkMove s w (s.goto w .wait)
  | takes (hpc : s.pc w = .ifTest) (hq : s.quitRequest = false ∨ s.innerQueue ≠ []) :
    WorkMove s w (s.goto w .take)
  | parked (hpc : s.pc w = .wait) :
    WorkMove s w { s.goto w .parked with lockRoot := none }
  | left (hpc : s.pc w = .ifTest) : WorkMove s w { s.goto w .exited with lockRoot := none }
  | took {k : ℕ} {innerQueue : List ℕ} (hpc : s.pc w = .take) :
    WorkMove s w { s.goto w (.running k) with
      lockRoot := none, innerQueue := innerQueue, taken := s.taken ++ [k] }
  | outside {p : WorkerPc} {executed : List ℕ} (hpc : (s.pc w).holdsLock = false)
    (hnc : s.pc w ≠ .notCreated) (hp : p = .untilTest ∨ p = .exited ∨ p = .lock) :
    WorkMove s w { s.goto w p with executed := executed }

theorem work_moves (hs : s.work w = some s') : WorkMove s w s' := by
  unfold work at hs
  cases hpc : s.pc w <;> simp only [hpc] at hs
  case notCreated | parked | exited => cases hs
  case lock | woken =>
    split at hs <;> cases hs
    exact .locked (by rw [hpc]; rfl) (Option.isNone_iff_eq_none.mp ‹_›)
  case whileTest =>
    split at hs <;> cases hs
    · rename_i hq
      rw [Bool.and_eq_true, Bool.not_eq_true'] at hq
      exact .waits hpc hq.1
    · rename_i hq
      refine .tested hpc ?_
      cases hquit : s.quitRequest
      · right
        intro hempty
        exact hq (by rw [hquit, hempty]; rfl)
      · left
        rfl
  case wait =>
    cases hs
    exact .parked hpc
  case ifTest =>
    split at hs <;> cases hs
    · exact .left hpc
    · rename_i hq
      refine .takes hpc ?_
      cases hquit : s.quitRequest
      · left
        rfl
      · right
        intro hempty
        exact hq (by rw [hquit, hempty]; rfl)
  case take =>
    split at hs <;> cases hs
    exact .took hpc
  case running k =>
    cases hs
    exact .outside (by rw [hpc]; rfl) (by rw [hpc]; nofun) (.inl rfl)
  case untilTest =>
    split at hs <;> cases hs
    · exact @WorkMove.outside _ _ _ _ s.executed (by rw [hpc]; rfl) (by rw [hpc]; nofun)
        (.inr (.inl rfl))
    · exact @WorkMove.outside _ _ _ _ s.executed (by rw [hpc]; rfl) (by rw [hpc]; nofun)
        (.inr (.inr rfl))

end SimpleThreadPool

/-- Who holds `_lockRoot`, and what it has seen. -/
structure LockInv {n : ℕ} (s : SimpleThreadPool n) : Prop where
  lock : ∀ w, s.lockRoot = some w ↔ (s.pc w).holdsLock
  tested : ∀ w, s.pc w = .ifTest → s.quitRequest = true ∨ s.innerQueue ≠ []
  take : ∀ w, s.pc w = .take → s.innerQueue ≠ []
  quit : s.stopPc = .notifyAll ∨ (∃ i, s.stopPc = .join i) → s.quitRequest = true
  created : s.threadPoolState = .created → (∀ w, s.pc w = .notCreated) ∧ s.stopPc = .idle
  started : s.threadPoolState ≠ .created → ∀ w, s.pc w ≠ .notCreated

namespace LockInv

variable {n : ℕ} {s s' : SimpleThreadPool n} {w : Fin n} {p : WorkerPc}

/-- Worker `w` goes to `p`, and keeps `_lockRoot` as it is, locks it or unlocks it. -/
theorem move (h : LockInv s) (hpc : s'.pc = Function.update s.pc w p)
    (hl : s'.lockRoot = s.lockRoot ∧ p.holdsLock = (s.pc w).holdsLock ∨
      s.lockRoot = none ∧ s'.lockRoot = some w ∧ p.holdsLock = true ∨
      (s.pc w).holdsLock = true ∧ s'.lockRoot = none ∧ p.holdsLock = false)
    (htested : p = .ifTest → s.quitRequest = true ∨ s.innerQueue ≠ [])
    (htake : p = .take → s.innerQueue ≠ []) (hnc : s.pc w ≠ .notCreated) (hp : p ≠ .notCreated)
    (hqueue : s'.innerQueue = s.innerQueue ∨ (s.pc w).holdsLock = true ∧ p.holdsLock = false)
    (hquit : s'.quitRequest = s.quitRequest := by rfl) (hstop : s'.stopPc = s.stopPc := by rfl)
    (hstate : s'.threadPoolState = s.threadPoolState := by rfl) : LockInv s' := by
  have hsame : ∀ u, u ≠ w → s'.pc u = s.pc u := by
    intro u hu
    rw [hpc, Function.update_of_ne hu]
  have hself : s'.pc w = p := by rw [hpc, Function.update_self]
  -- while `w` holds the lock, nobody else has seen the queue
  have hkeep : ∀ u, u ≠ w → (s.pc u).holdsLock = true → s'.innerQueue = s.innerQueue := by
    intro u hu hholds
    rcases hqueue with hqueue | ⟨hw, -⟩
    · exact hqueue
    · have hlock := (h.lock w).mpr hw
      rw [(h.lock u).mpr hholds] at hlock
      cases hlock
      exact absurd rfl hu
  refine ⟨fun u => ?_, fun u hu => ?_, fun u hu => ?_, ?_, ?_, ?_⟩
  · by_cases huw : u = w
    · subst huw
      rw [hself]
      rcases hl with ⟨hl, hh⟩ | ⟨-, hl, hh⟩ | ⟨-, hl, hh⟩
      · rw [hl, hh]
        exact h.lock u
      · rw [hl, hh]
        exact ⟨fun _ => rfl, fun _ => rfl⟩
      · rw [hl, hh]
        exact ⟨nofun, nofun⟩
    · rw [hsame u huw, ← h.lock u]
      rcases hl with ⟨hl, -⟩ | ⟨hfree, hl, -⟩ | ⟨hh, hl, -⟩
      · rw [hl]
      · rw [hl, hfree, Option.some.injEq]
        exact ⟨fun heq => absurd heq.symm huw, nofun⟩
      · rw [hl, (h.lock w).mpr hh, Option.some.injEq]
        exact ⟨nofun, fun heq => absurd heq.symm huw⟩
  · by_cases huw : u = w
    · subst huw
      rw [hself] at hu
      rcases hqueue with hqueue | ⟨-, hh⟩
      · rw [hqueue, hquit]
        exact htested hu
      · rw [hu] at hh
        cases hh
    · rw [hsame u huw] at hu
      rw [hkeep u huw (by rw [hu]; rfl), hquit]
      exact h.tested u hu
  · by_cases huw : u = w
    · subst huw
      rw [hself] at hu
      rcases hqueue with hqueue | ⟨-, hh⟩
      · rw [hqueue]
        exact htake hu
      · rw [hu] at hh
        cases hh
    · rw [hsame u huw] at hu
      rw [hkeep u huw (by rw [hu]; rfl)]
      exact h.take u hu
  · rw [hstop, hquit]
    exact h.quit
  · rw [hstate]
    intro hc
    exact absurd ((h.created hc).1 w) hnc
  · rw [hstate]
    intro hc u
    by_cases huw : u = w
    · subst huw
      rwa [hself]
    · rw [hsame u huw]
      exact h.started hc u

theorem work (h : LockInv s) (hs : s.work w = some s') : LockInv s' := by
  have hne : ∀ {q : WorkerPc}, s.pc w = q → q ≠ .notCreated → s.pc w ≠ .notCreated := by
    rintro q rfl hq
    exact hq
  cases SimpleThreadPool.work_moves hs with
  | locked hpc hfree =>
    refine h.move rfl (.inr (.inl ⟨hfree, rfl, rfl⟩)) nofun nofun ?_ nofun (.inl rfl)
    intro hnc
    rw [hnc] at hpc
    cases hpc
  | tested hpc hq =>
    exact h.move rfl (.inl ⟨rfl, by rw [hpc]; rfl⟩) (fun _ => hq) nofun (hne hpc nofun) nofun
      (.inl rfl)
  | waits hpc =>
    exact h.move rfl (.inl ⟨rfl, by rw [hpc]; rfl⟩) nofun nofun (hne hpc nofun) nofun (.inl rfl)
  | takes hpc hq =>
    refine h.move rfl (.inl ⟨rfl, by rw [hpc]; rfl⟩) nofun (fun _ => ?_) (hne hpc nofun) nofun
      (.inl rfl)
    rcases hq with hq | hq
    · refine (h.tested w hpc).resolve_left ?_
      rw [hq]
      nofun
    · exact hq
  | parked hpc | left hpc =>
    exact h.move rfl (.inr (.inr ⟨by rw [hpc]; rfl, rfl, rfl⟩)) nofun nofun (hne hpc nofun) nofun
      (.inl rfl)
  | took hpc =>
    exact h.move rfl (.inr (.inr ⟨by rw [hpc]; rfl, rfl, rfl⟩)) nofun nofun (hne hpc nofun) nofun
      (.inr ⟨by rw [hpc]; rfl, rfl⟩)
  | outside hpc hnc hp =>
    refine h.move rfl (.inl ⟨rfl, ?_⟩) ?_ ?_ hnc ?_ (.inl rfl)
    · rw [hpc]
      rcases hp with rfl | rfl | rfl <;> rfl
    all_goals rcases hp with rfl | rfl | rfl <;> nofun

/-- A worker that is parked is woken. -/
theorem woken (h : LockInv s) (hpc : s.pc w = .parked) : LockInv (s.goto w .woken) :=
  h.move rfl (.inl ⟨rfl, by rw [hpc]; rfl⟩) nofun nofun (by rw [hpc]; nofun) nofun (.inl rfl)

/-- An item enters the queue. -/
theorem enqueued (h : LockInv s) :
    LockInv { s with
      innerQueue := s.innerQueue ++ [s.enqueued], enqueued := s.enqueued + 1 } :=
  ⟨h.lock, fun _ _ => .inr (by simp), fun _ _ => by simp, h.quit, h.created, h.started⟩

theorem step (h : LockInv s) {a : PoolLabel n} (hs : s.step a = some s') : LockInv s' := by
  cases SimpleThreadPool.step_cases hs with
  | threw => exact ⟨h.lock, h.tested, h.take, h.quit, h.created, h.started⟩
  | started hidle hst =>
    have hnone := (h.created hst).1
    refine ⟨fun w => ?_, nofun, nofun, h.quit, nofun, fun _ => nofun⟩
    refine (h.lock w).trans ?_
    rw [hnone w]
    exact Iff.rfl
  | enqueued => exact h.enqueued
  | notifiedOne hpc => exact (h.woken hpc).enqueued
  | stopCalled hidle hst =>
    refine ⟨h.lock, h.tested, h.take, ?_, fun hc => ?_, h.started⟩
    · rintro (hn | ⟨i, hj⟩)
      · cases hn
      · cases hj
    · rw [hst] at hc
      cases hc
  | storeQuit hpc =>
    refine ⟨h.lock, fun _ _ => .inl rfl, h.take, fun _ => rfl, fun hc => ?_, h.started⟩
    have hidle := (h.created hc).2
    rw [hpc] at hidle
    cases hidle
  | notifyAll hpc =>
    have hq := h.quit (.inl hpc)
    have hwake : ∀ w, (s.pc w).wake.holdsLock = (s.pc w).holdsLock := by
      intro w
      cases s.pc w <;> rfl
    refine ⟨fun w => ?_, fun w _ => .inl hq, fun w hw => h.take w ?_, fun _ => hq, fun hc => ?_,
      fun hc w hw => h.started hc w ?_⟩
    · rw [hwake w]
      exact h.lock w
    · show s.pc w = .take
      cases hpc : s.pc w <;> simp [WorkerPc.wake, hpc] at hw ⊢
    · have hidle := (h.created hc).2
      rw [hpc] at hidle
      cases hidle
    · show s.pc w = .notCreated
      cases hpc : s.pc w <;> simp [WorkerPc.wake, hpc] at hw ⊢
  | joined hpc hi hex =>
    refine ⟨h.lock, h.tested, h.take, fun _ => h.quit (.inr ⟨_, hpc⟩), fun hc => ?_, h.started⟩
    have hidle := (h.created hc).2
    rw [hpc] at hidle
    cases hidle
  | stopped hpc hi =>
    refine ⟨h.lock, h.tested, h.take, fun _ => h.quit (.inr ⟨_, hpc⟩), nofun, fun _ => ?_⟩
    refine h.started fun hc => ?_
    have hidle := (h.created hc).2
    rw [hpc] at hidle
    cases hidle
  | work hs => exact h.work hs
  | spuriousWake hpc => exact h.woken hpc

/-- A worker that is in its loop and not parked can go on, if the lock is free where it wants
    it. -/
theorem work_isSome (h : LockInv s) (hlock : (s.pc w).locks → s.lockRoot = none)
    (hparked : s.pc w ≠ .parked) (hex : s.pc w ≠ .exited) (hnc : s.pc w ≠ .notCreated) :
    (s.work w).isSome := by
  have htake := h.take w
  unfold SimpleThreadPool.work
  cases hpc : s.pc w <;> rw [hpc] at hlock hparked hex hnc
  case lock | woken =>
    rw [hlock rfl]
    rfl
  case whileTest | ifTest | untilTest =>
    simp only
    split <;> rfl
  case wait | running => rfl
  case take =>
    obtain ⟨k, q, hq⟩ := List.exists_cons_of_ne_nil (htake hpc)
    rw [hq]
    rfl
  case parked => exact absurd rfl hparked
  case exited => exact absurd rfl hex
  case notCreated => exact absurd rfl hnc

end LockInv

/-- The pool keeps its invariant, and `_lockRoot` has one owner. -/
structure NotifyInv {n : ℕ} (s : NotifySystem n) : Prop where
  pool : LockInv s.pool
  excluded : s.enqueuing ≠ none → s.pool.lockRoot = none

/-- Only the workers lock and unlock `_lockRoot` in the steps of the pool. -/
theorem SimpleThreadPool.lockRoot_step {n : ℕ} {s s' : SimpleThreadPool n} {b : PoolLabel n}
    (hs : s.step b = some s') (hb : ∀ w, b ≠ .work w) : s'.lockRoot = s.lockRoot := by
  cases b with
  | work w => exact absurd rfl (hb w)
  | stopStep =>
    simp only [step, stopStep] at hs
    repeat' split at hs
    all_goals
      cases hs
      try rfl
  | enqueueItem w =>
    cases w
    all_goals
      simp only [step] at hs
      split at hs <;> cases hs
      rfl
  | start | stop | spuriousWake =>
    simp only [step] at hs
    repeat' split at hs
    all_goals
      cases hs
      try rfl

/-- A step is one of the pool, or one of `EnqueueItem`. -/
theorem NotifySystem.step_cases {n : ℕ} {s s' : NotifySystem n} {a : NotifyLabel n}
    (hs : s.step a = some s') :
    (∃ b p, s.pool.step b = some p ∧ s' = { s with pool := p } ∧
      (s.pool.lockRoot = none → s.enqueuing ≠ none → p.lockRoot = none)) ∨
    (s.pool.lockRoot = none ∧ s' = { s with enqueuing := some .push }) ∨
    (∃ w, s.enqueueStep w = some s') := by
  have hlift : ∀ b : PoolLabel n, (∀ w, b ≠ .work w) →
      ((s.pool.step b).map fun p => { s with pool := p }) = some s' →
      ∃ b p, s.pool.step b = some p ∧ s' = { s with pool := p } ∧
        (s.pool.lockRoot = none → s.enqueuing ≠ none → p.lockRoot = none) := by
    intro b hb hs
    obtain ⟨p, hp, rfl⟩ := Option.map_eq_some_iff.mp hs
    exact ⟨b, p, hp, rfl, fun hfree _ => (SimpleThreadPool.lockRoot_step hp hb).trans hfree⟩
  cases a with
  | start => exact .inl (hlift .start nofun hs)
  | stop => exact .inl (hlift .stop nofun hs)
  | stopStep => exact .inl (hlift .stopStep nofun hs)
  | spuriousWake w => exact .inl (hlift (.spuriousWake w) nofun hs)
  | enqueueItem =>
    simp only [NotifySystem.step] at hs
    split at hs <;> cases hs
    rename_i hfree
    exact .inr (.inl ⟨Option.isNone_iff_eq_none.mp hfree.1, rfl⟩)
  | enqueueStep w => exact .inr (.inr ⟨w, hs⟩)
  | work w =>
    simp only [NotifySystem.step] at hs
    split at hs
    · cases hs
    · rename_i hnot
      obtain ⟨p, hp, rfl⟩ := Option.map_eq_some_iff.mp hs
      refine .inl ⟨.work w, p, hp, rfl, fun hfree hne => ?_⟩
      cases SimpleThreadPool.work_moves hp with
      | locked hpc => exact absurd ⟨hpc, Option.isSome_iff_ne_none.mpr hne⟩ hnot
      | parked | left | took => rfl
      | _ => exact hfree

/-- What `EnqueueItem` does in its critical section: an item is pushed, a worker is woken, or
    nothing happens to the pool. -/
theorem NotifySystem.enqueueStep_cases {n : ℕ} {s s' : NotifySystem n} {w : Option (Fin n)}
    (hs : s.enqueueStep w = some s') :
    s.enqueuing ≠ none ∧
      (s'.pool = { s.pool with
        innerQueue := s.pool.innerQueue ++ [s.pool.enqueued]
        enqueued := s.pool.enqueued + 1 } ∨
      s'.pool = s.pool ∨ ∃ u, s.pool.pc u = .parked ∧ s'.pool = s.pool.goto u .woken) := by
  unfold enqueueStep at hs
  split at hs
  case h_1 he =>
    cases hs
    exact ⟨by rw [he]; nofun, .inl rfl⟩
  case h_2 he =>
    split at hs <;> cases hs
    exact ⟨by rw [he]; nofun, .inr (.inl rfl)⟩
  case h_3 u he =>
    split at hs <;> cases hs
    rename_i hpc
    exact ⟨by rw [he]; nofun, .inr (.inr ⟨u, hpc, rfl⟩)⟩
  case h_4 he =>
    cases hs
    exact ⟨by rw [he]; nofun, .inr (.inl rfl)⟩
  case h_5 => cases hs

theorem NotifyInv.step {n : ℕ} {s s' : NotifySystem n} {a : NotifyLabel n} (h : NotifyInv s)
    (hs : s.step a = some s') : NotifyInv s' := by
  rcases NotifySystem.step_cases hs with ⟨b, p, hp, rfl, hl⟩ | ⟨hfree, rfl⟩ | ⟨w, hw⟩
  · exact ⟨h.pool.step hp, fun hne => hl (h.excluded hne) hne⟩
  · exact ⟨h.pool, fun _ => hfree⟩
  · obtain ⟨hne, hp | hp | ⟨u, hu, hp⟩⟩ := NotifySystem.enqueueStep_cases hw
    · constructor
      · rw [hp]
        exact h.pool.enqueued
      · rw [hp]
        exact fun _ => h.excluded hne
    · constructor
      · rw [hp]
        exact h.pool
      · rw [hp]
        exact fun _ => h.excluded hne
    · constructor
      · rw [hp]
        exact h.pool.woken hu
      · rw [hp]
        exact fun _ => h.excluded hne

theorem reachable_notifyInv {n : ℕ} {s : NotifySystem n}
    (h : (notifyMachine n).Reachable Machine.Any s) : NotifyInv s := by
  refine h.invariant ⟨⟨fun w => ?_, nofun, nofun, ?_, fun _ => ⟨fun _ => rfl, rfl⟩, ?_⟩, ?_⟩
    fun _ _ _ hi _ hs => hi.step hs
  · exact ⟨nofun, nofun⟩
  · rintro (hn | ⟨i, hj⟩)
    · cases hn
    · cases hj
  · intro hne
    exact absurd rfl hne
  · intro hne
    exact absurd rfl hne

/-! ## After `notify_all` -/

/-- `_quitRequest` is set, and no worker is parked or about to park. -/
structure Awake {n : ℕ} (s : SimpleThreadPool n) : Prop where
  quit : s.quitRequest = true
  awake : ∀ w, s.pc w ≠ .wait ∧ s.pc w ≠ .parked

namespace Awake

variable {n : ℕ} {s s' : SimpleThreadPool n} {w : Fin n} {p : WorkerPc}

theorem move (h : Awake s) (hpc : s'.pc = Function.update s.pc w p)
    (hp : p ≠ .wait ∧ p ≠ .parked) (hquit : s'.quitRequest = s.quitRequest := by rfl) :
    Awake s' := by
  refine ⟨hquit.trans h.quit, fun u => ?_⟩
  rw [hpc]
  by_cases hu : u = w
  · subst hu
    rwa [Function.update_self]
  · rw [Function.update_of_ne hu]
    exact h.awake u

/-- A worker that looks at `_quitRequest` finds it set. -/
theorem work (h : Awake s) (hs : s.work w = some s') : Awake s' := by
  cases SimpleThreadPool.work_moves hs with
  | waits hpc hq =>
    rw [h.quit] at hq
    cases hq
  | parked hpc => exact absurd hpc (h.awake w).1
  | locked | tested | takes | left | took => exact h.move rfl ⟨nofun, nofun⟩
  | outside hpc hnc hp =>
    apply h.move rfl
    rcases hp with rfl | rfl | rfl <;> exact ⟨nofun, nofun⟩

theorem step (h : Awake s) {a : PoolLabel n} (hs : s.step a = some s') : Awake s' := by
  cases SimpleThreadPool.step_cases hs with
  | threw | enqueued | stopCalled | joined | stopped => exact ⟨h.quit, h.awake⟩
  | started => exact ⟨h.quit, fun _ => ⟨nofun, nofun⟩⟩
  | storeQuit => exact ⟨rfl, h.awake⟩
  | notifiedOne | spuriousWake => exact h.move rfl ⟨nofun, nofun⟩
  | notifyAll =>
    refine ⟨h.quit, fun w => ?_⟩
    have hw := h.awake w
    show (s.pc w).wake ≠ .wait ∧ (s.pc w).wake ≠ .parked
    cases hpc : s.pc w <;> simp [WorkerPc.wake, hpc] at hw ⊢
  | work hs => exact h.work hs

end Awake

/-- No step of the system lets a worker fall asleep. -/
theorem Awake.system_step {n : ℕ} {s s' : NotifySystem n} {a : NotifyLabel n}
    (h : Awake s.pool) (hs : s.step a = some s') : Awake s'.pool := by
  rcases NotifySystem.step_cases hs with ⟨b, p, hp, rfl, -⟩ | ⟨-, rfl⟩ | ⟨w, hw⟩
  · exact h.step hp
  · exact h
  · obtain ⟨-, hp | hp | ⟨u, -, hp⟩⟩ := NotifySystem.enqueueStep_cases hw <;> rw [hp]
    · exact ⟨h.quit, h.awake⟩
    · exact h
    · exact h.move rfl ⟨nofun, nofun⟩

/-- The steps that let `Stop` go on: its own, those of the workers and those of a call of
    `EnqueueItem` that holds `_lockRoot`. -/
def NotifyLabel.helps {n : ℕ} : NotifyLabel n → Bool
  | .stopStep | .work _ | .enqueueStep _ => true
  | _ => false

/-- While no worker is parked or about to park, `join` waits for a worker that can go on, or
    for the owner of `_lockRoot`. -/
theorem NotifyInv.progress {n : ℕ} {s : NotifySystem n} (h : NotifyInv s) (ha : Awake s.pool)
    {i : ℕ} (hjoin : s.pool.stopPc = .join i) : ∃ a, a.helps = true ∧ (s.step a).isSome := by
  have hcreated : s.pool.threadPoolState ≠ .created := by
    intro hc
    have hidle := (h.pool.created hc).2
    rw [hjoin] at hidle
    cases hidle
  by_cases hi : i < n
  case neg =>
    refine ⟨.stopStep, rfl, ?_⟩
    simp [NotifySystem.step, SimpleThreadPool.step, SimpleThreadPool.stopStep, hjoin, hi]
  by_cases hex : s.pool.pc ⟨i, hi⟩ = .exited
  case pos =>
    refine ⟨.stopStep, rfl, ?_⟩
    simp [NotifySystem.step, SimpleThreadPool.step, SimpleThreadPool.stopStep, hjoin, hi, hex]
  cases he : s.enqueuing with
  | some e =>
    -- the call of `EnqueueItem` goes on; there is no worker that it has to wake
    refine ⟨.enqueueStep none, rfl, ?_⟩
    cases e with
    | push | unlock => simp [NotifySystem.step, NotifySystem.enqueueStep, he]
    | notifyOne =>
      simp [NotifySystem.step, NotifySystem.enqueueStep, he, fun u => (ha.awake u).2]
  | none =>
    have hwork : ∀ u, (s.pool.work u).isSome → (s.step (.work u)).isSome := by
      intro u hu
      simpa [NotifySystem.step, he, SimpleThreadPool.step] using hu
    cases hl : s.pool.lockRoot with
    | some u =>
      -- the owner of the lock goes on
      obtain ⟨hlocks, hexited, hnc⟩ := WorkerPc.of_holdsLock ((h.pool.lock u).mp hl)
      refine ⟨.work u, rfl, hwork u (h.pool.work_isSome ?_ (ha.awake u).2 hexited hnc)⟩
      rw [hlocks]
      simp
    | none =>
      refine ⟨.work ⟨i, hi⟩, rfl, hwork ⟨i, hi⟩ (h.pool.work_isSome (fun _ => hl)
        (ha.awake ⟨i, hi⟩).2 hex (h.pool.started hcreated ⟨i, hi⟩))⟩

/-! ## No worker sleeps through `Stop` -/

section Stop

variable {n : ℕ} {s₀ s₁ : NotifySystem n}

/-- `notify_all` while nobody is about to park. -/
theorem awake_of_notifyAll (h₀ : NotifyInv s₀) (hstop : s₀.pool.stopPc = .notifyAll)
    (hstep : s₀.step .stopStep = some s₁) (hwait : ∀ w, s₀.pool.pc w ≠ .wait) :
    Awake s₁.pool := by
  have hquit := h₀.pool.quit (.inl hstop)
  simp only [NotifySystem.step, SimpleThreadPool.step, SimpleThreadPool.stopStep, hstop] at hstep
  cases hstep
  refine ⟨hquit, fun w => ?_⟩
  have hw := hwait w
  show (s₀.pool.pc w).wake ≠ .wait ∧ (s₀.pool.pc w).wake ≠ .parked
  cases hpc : s₀.pool.pc w <;> simp [WorkerPc.wake, hpc] at hw ⊢

/-- `notify_all` while `w` is about to park: `w` parks, and nobody is left to wake it. -/
theorem exists_leftAsleep (h₀ : NotifyInv s₀) (hstop : s₀.pool.stopPc = .notifyAll)
    (hstep : s₀.step .stopStep = some s₁) {w : Fin n} (hwait : s₀.pool.pc w = .wait) :
    ∃ s, (notifyMachine n).Reaches Machine.Any s₁ s ∧ s.LeftAsleep := by
  have hquit := h₀.pool.quit (.inl hstop)
  have hlock : s₀.pool.lockRoot = some w := (h₀.pool.lock w).mpr (by rw [hwait]; rfl)
  have henq : s₀.enqueuing = none := by
    by_contra hne
    rw [h₀.excluded hne] at hlock
    cases hlock
  simp only [NotifySystem.step, SimpleThreadPool.step, SimpleThreadPool.stopStep, hstop] at hstep
  cases hstep
  have hwake : (s₀.pool.pc w).wake = .wait := by rw [hwait]; rfl
  refine ⟨{ s₀ with
    pool := { s₀.pool.goto w .parked with
      pc := Function.update (fun u => (s₀.pool.pc u).wake) w .parked
      stopPc := .join 0, lockRoot := none } }, .single (a := .work w) trivial ?_, ?_⟩
  · simp [notifyMachine, NotifySystem.step, henq, SimpleThreadPool.step, SimpleThreadPool.work,
      hwake]
  · refine ⟨⟨hquit, 0, rfl⟩, ⟨w, ?_⟩, ?_, ?_⟩
    · show Function.update (fun u => (s₀.pool.pc u).wake) w WorkerPc.parked w = _
      exact Function.update_self ..
    · show s₀.enqueuing ≠ _
      rw [henq]
      simp
    · show s₀.enqueuing ≠ _
      rw [henq]
      simp

/-- `Stop` calls `notify_all`. In no state of any run from there a worker is parked with nobody
    left to wake it, if and only if no worker is between its look at `_quitRequest` and its
    parking. In that case the `join` of `Stop` can always go on. -/
theorem no_worker_sleeps_through_stop_iff
    (h₀ : (notifyMachine n).Reachable Machine.Any s₀) (hstop : s₀.pool.stopPc = .notifyAll)
    (hstep : s₀.step .stopStep = some s₁) :
    ((∀ s, (notifyMachine n).Reaches Machine.Any s₁ s → ¬ s.LeftAsleep) ↔
      ∀ w, s₀.pool.pc w ≠ .wait) ∧
    ((∀ w, s₀.pool.pc w ≠ .wait) → ∀ s, (notifyMachine n).Reaches Machine.Any s₁ s →
      s.Notified → ∃ a, a.helps = true ∧ (s.step a).isSome) := by
  have hi₀ := reachable_notifyInv h₀
  have hawake : (∀ w, s₀.pool.pc w ≠ .wait) → ∀ s,
      (notifyMachine n).Reaches Machine.Any s₁ s → Awake s.pool := by
    intro hwait s hr
    exact hr.preserves (I := fun s => Awake s.pool) (fun _ _ _ h _ hs => h.system_step hs)
      (awake_of_notifyAll hi₀ hstop hstep hwait)
  refine ⟨⟨fun hnever w hwait => ?_, fun hwait s hr => ?_⟩, fun hwait s hr hn => ?_⟩
  · obtain ⟨s, hr, hasleep⟩ := exists_leftAsleep hi₀ hstop hstep hwait
    exact hnever s hr hasleep
  · rintro ⟨-, ⟨w, hw⟩, -⟩
    exact ((hawake hwait s hr).awake w).2 hw
  · obtain ⟨-, i, hjoin⟩ := hn
    have hs₁ : (notifyMachine n).Reachable Machine.Any s₁ :=
      h₀.step (a := .stopStep) trivial hstep
    exact (reachable_notifyInv (hs₁.trans hr)).progress (hawake hwait s hr) hjoin

/-- One worker is parked, the other before `_lockRoot`, when `Stop` calls `notify_all`. -/
theorem no_worker_sleeps_through_stop_two :
    ∃ s₁ : NotifySystem 2, (notifyMachine 2).Reachable Machine.Any s₁ ∧ s₁.Notified ∧
      ∀ s, (notifyMachine 2).Reaches Machine.Any s₁ s → ¬ s.LeftAsleep := by
  obtain ⟨s₀, s₁, h₀, hstop, hstep, hwait, hn⟩ : ∃ s₀ s₁ : NotifySystem 2,
      (notifyMachine 2).run {} [.start, .work 0, .work 0, .work 0, .stop, .stopStep] = some s₀ ∧
        s₀.pool.stopPc = .notifyAll ∧ s₀.step .stopStep = some s₁ ∧
        (∀ w, s₀.pool.pc w ≠ .wait) ∧ s₁.Notified :=
    ⟨_, _, rfl, rfl, rfl, by decide, rfl, 0, rfl⟩
  have hr₀ : (notifyMachine 2).Reachable Machine.Any s₀ := .of_run h₀
  exact ⟨s₁, hr₀.step (a := .stopStep) trivial hstep, hn,
    (no_worker_sleeps_through_stop_iff hr₀ hstop hstep).1.mpr hwait⟩

/-- One worker, which has looked at `_quitRequest` when `Stop` sets it: it parks after
    `notify_all`, and without another `EnqueueItem` or a spurious wakeup nothing moves. -/
theorem not_no_worker_sleeps_through_stop :
    ∃ s : NotifySystem 1, (notifyMachine 1).Reachable Machine.Any s ∧ s.LeftAsleep ∧
      ∀ a : NotifyLabel 1, a.helps = true → s.step a = none := by
  have hr : (notifyMachine 1).run {} [.start, .work 0, .work 0, .stop, .stopStep, .stopStep,
    .work 0] = some _ := rfl
  refine ⟨_, .of_run hr, ⟨⟨rfl, 0, rfl⟩, ⟨0, rfl⟩, nofun, nofun⟩, fun a ha => ?_⟩
  cases a with
  | stopStep => rfl
  | work w =>
    obtain rfl : w = 0 := Subsingleton.elim _ _
    rfl
  | enqueueStep w => cases w <;> rfl
  | _ => cases ha

end Stop

end AsyncCpp.Schedulers
