import AsyncCpp.Basic
import AsyncCpp.Lib.Machine
import AsyncCpp.Lib.Threads
import Mathlib.Data.List.Range

/-!
# `SimpleThreadPool`

Model of Schedulers/SimpleThreadPool.cpp: `n` workers over one queue, `EnqueueItem` from any
thread, and one thread that calls `Start` and `Stop`. A worker's loop is cut at every access
to `_quitRequest`, which `Stop` writes without `_lockRoot`. `notify_one` wakes any parked
worker, and a parked worker may wake spuriously. Items terminate and return normally; an
item is the number of the `EnqueueItem` call that pushed it.

The inner loop of a worker leaves with an empty queue only, but after an item the outer loop
asks for `_quitRequest` alone (SimpleThreadPool.cpp:83), so a worker runs at most one item
after `Stop` has set the flag.

Results:
* `stop_drains_iff`: when `Stop` returns, the items enqueued before it have all been executed
  if and only if, when it set the flag, at most as many of them were queued as workers were
  still to take an item.
* `not_stop_drains`: one worker, two items.
-/

namespace AsyncCpp.Schedulers

open Interleaving

/-! ## The pool -/

inductive ThreadPoolState where
  | created
  | started
  | stopped
  deriving DecidableEq, Repr

/-- Where a worker is in its loop. -/
inductive WorkerPc where
  /-- `Start` has not created the thread. -/
  | notCreated
  /-- Before `_lockRoot`. -/
  | lock
  /-- Holds `_lockRoot`, before `while (!_quitRequest.load() && _innerQueue.empty())`. -/
  | whileTest
  /-- Holds `_lockRoot`, before `wait`. -/
  | wait
  | parked
  | woken
  /-- Holds `_lockRoot`, before `if (_quitRequest.load() && _innerQueue.empty())`. -/
  | ifTest
  /-- Holds `_lockRoot`, before `_innerQueue.front()`. -/
  | take
  | running (k : ℕ)
  /-- Before `while (!_quitRequest.load())`. -/
  | untilTest
  | exited
  deriving DecidableEq, Repr

/-- Where the call of `Stop` is. -/
inductive StopPc where
  | idle
  /-- Before `_quitRequest.store(true)`. -/
  | storeQuit
  | notifyAll
  /-- Before `join` of thread `i`. -/
  | join (i : ℕ)
  deriving DecidableEq, Repr

/-- The pool with its threads. The last five fields are history: the number of `EnqueueItem`
    calls, how many of them were made before `Stop` was called, the items taken from the
    queue, the items executed, and how the calls of `Start` and `Stop` ended. -/
structure SimpleThreadPool (n : ℕ) where
  innerQueue : List ℕ := []
  lockRoot : Option (Fin n) := none
  threadPoolState : ThreadPoolState := .created
  quitRequest : Bool := false
  pc : Fin n → WorkerPc := fun _ => .notCreated
  stopPc : StopPc := .idle
  enqueued : ℕ := 0
  beforeStop : ℕ := 0
  taken : List ℕ := []
  executed : List ℕ := []
  callLog : List (Except (Exn Empty) Unit) := []

inductive PoolLabel (n : ℕ) where
  | start
  /-- `EnqueueItem`, whose `notify_one` wakes `w`. -/
  | enqueueItem (w : Option (Fin n))
  | stop
  /-- `Stop` goes on. -/
  | stopStep
  /-- Worker `w` goes on. -/
  | work (w : Fin n)
  | spuriousWake (w : Fin n)

/-- `throwInvalidThreadPoolState` (SimpleThreadPool.cpp:134-137). -/
def invalidThreadPoolState : Exn Empty := .logicError "ThreadPool is in invalid state."

/-- A condition variable wakes the worker. -/
def WorkerPc.wake : WorkerPc → WorkerPc
  | .parked => .woken
  | p => p

namespace SimpleThreadPool

variable {n : ℕ}

@[simp] def goto (s : SimpleThreadPool n) (w : Fin n) (p : WorkerPc) : SimpleThreadPool n :=
  { s with pc := Function.update s.pc w p }

/-- Worker `w` goes on (SimpleThreadPool.cpp:54-83). -/
def work (s : SimpleThreadPool n) (w : Fin n) : Option (SimpleThreadPool n) :=
  match s.pc w with
  | .lock | .woken =>
    if s.lockRoot.isNone then some { s.goto w .whileTest with lockRoot := some w } else none
  | .whileTest =>
    if !s.quitRequest && s.innerQueue.isEmpty then some (s.goto w .wait)
    else some (s.goto w .ifTest)
  | .wait => some { s.goto w .parked with lockRoot := none }
  | .ifTest =>
    if s.quitRequest && s.innerQueue.isEmpty then some { s.goto w .exited with lockRoot := none }
    else some (s.goto w .take)
  | .take =>
    match s.innerQueue with
    | [] => none
    | k :: innerQueue =>
      some { s.goto w (.running k) with
        lockRoot := none, innerQueue := innerQueue, taken := s.taken ++ [k] }
  | .running k => some { s.goto w .untilTest with executed := s.executed ++ [k] }
  | .untilTest => if s.quitRequest then some (s.goto w .exited) else some (s.goto w .lock)
  | .notCreated | .parked | .exited => none

/-- `Stop` goes on (SimpleThreadPool.cpp:107-114). -/
def stopStep (s : SimpleThreadPool n) : Option (SimpleThreadPool n) :=
  match s.stopPc with
  | .idle => none
  | .storeQuit => some { s with quitRequest := true, stopPc := .notifyAll }
  | .notifyAll => some { s with pc := fun w => (s.pc w).wake, stopPc := .join 0 }
  | .join i =>
    if h : i < n then
      if s.pc ⟨i, h⟩ = .exited then some { s with stopPc := .join (i + 1) } else none
    else some { s with
      threadPoolState := .stopped, stopPc := .idle, callLog := s.callLog ++ [.ok ()] }

/-- One step. `Start` and `Stop` are called by one thread (SimpleThreadPool.h:12); a thread
    that `Start` has created and that has not run yet is before `_lockRoot`. -/
def step (s : SimpleThreadPool n) : PoolLabel n → Option (SimpleThreadPool n)
  | .start =>
    if s.stopPc ≠ .idle then none
    else if s.threadPoolState ≠ .created then
      some { s with callLog := s.callLog ++ [.error invalidThreadPoolState] }
    else some { s with
      pc := fun _ => .lock, threadPoolState := .started, callLog := s.callLog ++ [.ok ()] }
  | .enqueueItem none =>
    if s.lockRoot.isNone ∧ ∀ u, s.pc u ≠ .parked then
      some { s with innerQueue := s.innerQueue ++ [s.enqueued], enqueued := s.enqueued + 1 }
    else none
  | .enqueueItem (some w) =>
    if s.lockRoot.isNone ∧ s.pc w = .parked then
      some { s.goto w .woken with
        innerQueue := s.innerQueue ++ [s.enqueued], enqueued := s.enqueued + 1 }
    else none
  | .stop =>
    if s.stopPc ≠ .idle then none
    else if s.threadPoolState ≠ .started then
      some { s with callLog := s.callLog ++ [.error invalidThreadPoolState] }
    else some { s with stopPc := .storeQuit, beforeStop := s.enqueued }
  | .stopStep => s.stopStep
  | .work w => s.work w
  | .spuriousWake w => if s.pc w = .parked then some (s.goto w .woken) else none

end SimpleThreadPool

/-- The machine of a new pool of `n` workers. -/
def poolMachine (n : ℕ) : Machine (SimpleThreadPool n) (PoolLabel n) where
  init := {}
  step := SimpleThreadPool.step

/-! ## The queue -/

/-- The worker has not taken an item since it was last before `_lockRoot`, and has not left
    its loop. -/
def WorkerPc.mayTake : WorkerPc → ℕ
  | .running _ | .untilTest | .exited => 0
  | _ => 1

/-- The worker executes item `k`. -/
def WorkerPc.runs (k : ℕ) : WorkerPc → ℕ
  | .running k' => if k' = k then 1 else 0
  | _ => 0

@[simp] theorem WorkerPc.mayTake_wake (p : WorkerPc) : p.wake.mayTake = p.mayTake := by
  cases p <;> rfl

@[simp] theorem WorkerPc.runs_wake (k : ℕ) (p : WorkerPc) : p.wake.runs k = p.runs k := by
  cases p <;> rfl

namespace SimpleThreadPool

variable {n : ℕ}

/-- The workers that will look into the queue again before they ask for `_quitRequest` at
    the end of their loop. -/
def ready (s : SimpleThreadPool n) : ℕ := tally WorkerPc.mayTake s.pc

/-- The items enqueued before `Stop` was called that are still queued. -/
def owed (s : SimpleThreadPool n) : List ℕ := s.innerQueue.filter (· < s.beforeStop)

end SimpleThreadPool

namespace SimpleThreadPool

variable {n : ℕ} {s s' : SimpleThreadPool n} {w : Fin n}

/-- What a step of a worker can do: move without touching an item, take one, or finish one.
    Only a worker that finds `_quitRequest` set and the queue empty, or that has taken an
    item, stops being ready. -/
theorem work_cases (hs : s.work w = some s') :
    (∃ l p, s' = { s.goto w p with lockRoot := l } ∧ (∀ k, p.runs k = (s.pc w).runs k) ∧
      s.pc w ≠ .notCreated ∧ s.pc w ≠ .exited ∧
      (p.mayTake = (s.pc w).mayTake ∨
        (p.mayTake = 0 ∧ (s.pc w).mayTake = 1 ∧ s.quitRequest = true ∧ s.innerQueue = []) ∨
        (p.mayTake = 1 ∧ (s.pc w).mayTake = 0 ∧ s.quitRequest = false))) ∨
    (∃ k innerQueue, s.pc w = .take ∧ s.innerQueue = k :: innerQueue ∧
      s' = { s.goto w (.running k) with
        lockRoot := none, innerQueue := innerQueue, taken := s.taken ++ [k] }) ∨
    (∃ k, s.pc w = .running k ∧
      s' = { s.goto w .untilTest with executed := s.executed ++ [k] }) := by
  unfold work at hs
  cases hpc : s.pc w <;> simp only [hpc] at hs
  case notCreated | parked | exited => cases hs
  case lock | woken =>
    split at hs <;> cases hs
    exact .inl ⟨_, _, rfl, fun _ => rfl, nofun, nofun, .inl rfl⟩
  case whileTest =>
    split at hs <;> cases hs <;>
      exact .inl ⟨_, _, rfl, fun _ => rfl, nofun, nofun, .inl rfl⟩
  case wait =>
    cases hs
    exact .inl ⟨_, _, rfl, fun _ => rfl, nofun, nofun, .inl rfl⟩
  case ifTest =>
    split at hs <;> cases hs
    · rename_i hq
      rw [Bool.and_eq_true, List.isEmpty_iff] at hq
      exact .inl ⟨_, _, rfl, fun _ => rfl, nofun, nofun, .inr (.inl ⟨rfl, rfl, hq⟩)⟩
    · exact .inl ⟨_, _, rfl, fun _ => rfl, nofun, nofun, .inl rfl⟩
  case take =>
    split at hs <;> cases hs
    rename_i k innerQueue hq
    exact .inr (.inl ⟨k, innerQueue, rfl, hq, rfl⟩)
  case running k =>
    cases hs
    exact .inr (.inr ⟨k, rfl, rfl⟩)
  case untilTest =>
    split at hs <;> cases hs
    · exact .inl ⟨_, _, rfl, fun _ => rfl, nofun, nofun, .inl rfl⟩
    · rename_i hq
      rw [Bool.not_eq_true] at hq
      exact .inl ⟨_, _, rfl, fun _ => rfl, nofun, nofun, .inr (.inr ⟨rfl, rfl, hq⟩)⟩

/-- What a step of the pool does. -/
inductive PoolStep (s : SimpleThreadPool n) : SimpleThreadPool n → Prop
  | threw : PoolStep s { s with callLog := s.callLog ++ [.error invalidThreadPoolState] }
  | started (hidle : s.stopPc = .idle) (hst : s.threadPoolState = .created) :
    PoolStep s { s with
      pc := fun _ => .lock, threadPoolState := .started, callLog := s.callLog ++ [.ok ()] }
  | enqueued :
    PoolStep s { s with
      innerQueue := s.innerQueue ++ [s.enqueued], enqueued := s.enqueued + 1 }
  | notifiedOne {w : Fin n} (hpc : s.pc w = .parked) :
    PoolStep s { s.goto w .woken with
      innerQueue := s.innerQueue ++ [s.enqueued], enqueued := s.enqueued + 1 }
  | stopCalled (hidle : s.stopPc = .idle) (hst : s.threadPoolState = .started) :
    PoolStep s { s with stopPc := .storeQuit, beforeStop := s.enqueued }
  | storeQuit (hpc : s.stopPc = .storeQuit) :
    PoolStep s { s with quitRequest := true, stopPc := .notifyAll }
  | notifyAll (hpc : s.stopPc = .notifyAll) :
    PoolStep s { s with pc := fun w => (s.pc w).wake, stopPc := .join 0 }
  | joined {i : ℕ} (hpc : s.stopPc = .join i) (hi : i < n) (hex : s.pc ⟨i, hi⟩ = .exited) :
    PoolStep s { s with stopPc := .join (i + 1) }
  | stopped {i : ℕ} (hpc : s.stopPc = .join i) (hi : n ≤ i) :
    PoolStep s { s with
      threadPoolState := .stopped, stopPc := .idle, callLog := s.callLog ++ [.ok ()] }
  | work {s' : SimpleThreadPool n} {w : Fin n} (hs : s.work w = some s') : PoolStep s s'
  | spuriousWake {w : Fin n} (hpc : s.pc w = .parked) : PoolStep s (s.goto w .woken)

theorem stopStep_cases (hs : s.stopStep = some s') : PoolStep s s' := by
  unfold stopStep at hs
  split at hs
  case h_1 => cases hs
  case h_2 hpc => cases hs; exact .storeQuit hpc
  case h_3 hpc => cases hs; exact .notifyAll hpc
  case h_4 i hpc =>
    split_ifs at hs with hi hex <;> cases hs
    · exact .joined hpc hi hex
    · exact .stopped hpc (Nat.not_lt.mp hi)

theorem step_cases {a : PoolLabel n} (hs : s.step a = some s') : PoolStep s s' := by
  cases a with
  | start =>
    simp only [step] at hs
    split_ifs at hs with hidle hst <;> cases hs
    · exact .threw
    · exact .started (not_not.mp hidle) (not_not.mp hst)
  | enqueueItem w =>
    cases w with
    | none =>
      simp only [step] at hs
      split_ifs at hs
      cases hs
      exact .enqueued
    | some w =>
      simp only [step] at hs
      split_ifs at hs with hen
      cases hs
      exact .notifiedOne hen.2
  | stop =>
    simp only [step] at hs
    split_ifs at hs with hidle hst <;> cases hs
    · exact .threw
    · exact .stopCalled (not_not.mp hidle) (not_not.mp hst)
  | stopStep => exact stopStep_cases hs
  | work w => exact .work hs
  | spuriousWake w =>
    simp only [step] at hs
    split_ifs at hs with hpc
    cases hs
    exact .spuriousWake hpc

end SimpleThreadPool

/-! ## The invariant -/

/-- Items leave the queue in the order in which they entered it, and a worker executes what
    it has taken. -/
structure ItemsInv {n : ℕ} (s : SimpleThreadPool n) : Prop where
  queue : s.taken ++ s.innerQueue = List.range s.enqueued
  executed : ∀ k, s.executed.count k + tally (WorkerPc.runs k) s.pc = s.taken.count k
  before : s.beforeStop ≤ s.enqueued

/-- How the calls of `Start` and `Stop` and the workers' loops fit together. -/
structure ThreadsInv {n : ℕ} (s : SimpleThreadPool n) : Prop where
  created : s.threadPoolState = .created → s.pc = fun _ => .notCreated
  quit : s.quitRequest = true ∨ s.stopPc ≠ .idle →
    s.threadPoolState = .stopped ∨ s.threadPoolState = .started ∧ s.stopPc ≠ .idle
  joined : ∀ i, s.stopPc = .join i → s.quitRequest = true ∧ ∀ w : Fin n, w.val < i → s.pc w = .exited
  stopped : s.threadPoolState = .stopped →
    s.quitRequest = true ∧ s.stopPc = .idle ∧ ∀ w, s.pc w = .exited
  notifying : s.stopPc = .notifyAll → s.quitRequest = true

/-- What holds in every state of a pool. -/
structure PoolInv {n : ℕ} (s : SimpleThreadPool n) : Prop where
  items : ItemsInv s
  threads : ThreadsInv s

section Invariant

variable {n : ℕ} {s s' : SimpleThreadPool n} {w : Fin n} {p : WorkerPc}

/-- While `Stop` is running the pool is in state `Started`. -/
theorem ThreadsInv.started (h : ThreadsInv s) (hne : s.stopPc ≠ .idle) :
    s.threadPoolState = .started := by
  rcases h.quit (.inr hne) with hst | hst
  · exact absurd (h.stopped hst).2.1 hne
  · exact hst.1

/-- A worker that has not left its loop moves. -/
theorem ThreadsInv.goto (h : ThreadsInv s) (hnc : s.pc w ≠ .notCreated) (hne : s.pc w ≠ .exited)
    (hpc : s'.pc = Function.update s.pc w p) (hstop : s'.stopPc = s.stopPc)
    (hstate : s'.threadPoolState = s.threadPoolState)
    (hquit : s'.quitRequest = s.quitRequest) : ThreadsInv s' := by
  have hkeep : ∀ u, s.pc u = .exited → s'.pc u = .exited := by
    intro u hu
    have huw : u ≠ w := by
      rintro rfl
      exact hne hu
    rw [hpc, Function.update_of_ne huw]
    exact hu
  refine ⟨fun hc => ?_, ?_, fun i hi => ?_, fun hst => ?_, ?_⟩
  · rw [hstate] at hc
    exact absurd (congrFun (h.created hc) w) hnc
  · rw [hstop, hstate, hquit]
    exact h.quit
  · rw [hstop] at hi
    rw [hquit]
    exact ⟨(h.joined i hi).1, fun u hu => hkeep u ((h.joined i hi).2 u hu)⟩
  · rw [hstate] at hst
    rw [hquit, hstop]
    obtain ⟨hq, hidle, hex⟩ := h.stopped hst
    exact ⟨hq, hidle, fun u => hkeep u (hex u)⟩
  · rw [hstop, hquit]
    exact h.notifying

theorem ItemsInv.goto (h : ItemsInv s) {l : Option (Fin n)}
    (hruns : ∀ k, p.runs k = (s.pc w).runs k) :
    ItemsInv { s.goto w p with lockRoot := l } := by
  refine ⟨h.queue, fun k => ?_, h.before⟩
  have htally := tally_update (WorkerPc.runs k) s.pc w p
  have hex := h.executed k
  rw [hruns k] at htally
  simp only [SimpleThreadPool.goto]
  omega

theorem ItemsInv.take (h : ItemsInv s) {k : ℕ} {q : List ℕ} (hpc : s.pc w = .take)
    (hq : s.innerQueue = k :: q) :
    ItemsInv { s.goto w (.running k) with
      lockRoot := none, innerQueue := q, taken := s.taken ++ [k] } := by
  refine ⟨?_, fun k' => ?_, h.before⟩
  · have hqueue := h.queue
    rw [hq] at hqueue
    simpa using hqueue
  · have htally := tally_update (WorkerPc.runs k') s.pc w (.running k)
    have hex := h.executed k'
    rw [hpc] at htally
    simp only [SimpleThreadPool.goto, List.count_append, List.count_singleton]
    simp only [WorkerPc.runs, beq_iff_eq] at htally ⊢
    omega

theorem ItemsInv.execute (h : ItemsInv s) {k : ℕ} (hpc : s.pc w = .running k) :
    ItemsInv { s.goto w .untilTest with executed := s.executed ++ [k] } := by
  refine ⟨h.queue, fun k' => ?_, h.before⟩
  have htally := tally_update (WorkerPc.runs k') s.pc w .untilTest
  have hex := h.executed k'
  rw [hpc] at htally
  simp only [SimpleThreadPool.goto, List.count_append, List.count_singleton]
  simp only [WorkerPc.runs, beq_iff_eq] at htally ⊢
  omega

theorem ItemsInv.enqueueItem (h : ItemsInv s)
    (hruns : ∀ k, tally (WorkerPc.runs k) s'.pc = tally (WorkerPc.runs k) s.pc)
    (hq : s'.innerQueue = s.innerQueue ++ [s.enqueued]) (hn : s'.enqueued = s.enqueued + 1)
    (ht : s'.taken = s.taken) (hex : s'.executed = s.executed)
    (hb : s'.beforeStop = s.beforeStop) : ItemsInv s' := by
  refine ⟨?_, fun k => ?_, ?_⟩
  · rw [ht, hq, hn, List.range_succ, ← h.queue, List.append_assoc]
  · rw [hex, ht, hruns]
    exact h.executed k
  · rw [hb, hn]
    exact h.before.trans (Nat.le_succ _)

theorem PoolInv.work (h : PoolInv s) (hs : s.work w = some s') : PoolInv s' := by
  obtain ⟨l, p, rfl, hruns, hnc, hne, -⟩ | ⟨k, q, hpc, hq, rfl⟩ | ⟨k, hpc, rfl⟩ :=
    SimpleThreadPool.work_cases hs
  · exact ⟨h.items.goto hruns, h.threads.goto hnc hne rfl rfl rfl rfl⟩
  · exact ⟨h.items.take hpc hq,
      h.threads.goto (by rw [hpc]; nofun) (by rw [hpc]; nofun) rfl rfl rfl rfl⟩
  · exact ⟨h.items.execute hpc,
      h.threads.goto (by rw [hpc]; nofun) (by rw [hpc]; nofun) rfl rfl rfl rfl⟩

/-- Waking workers does not change a tally that does not tell the sleeping from the woken. -/
theorem tally_wake (f : WorkerPc → ℕ) (hf : ∀ p, f p.wake = f p) (pc : Fin n → WorkerPc) :
    tally f (fun u => (pc u).wake) = tally f pc :=
  Finset.sum_congr rfl fun u _ => hf (pc u)

theorem tally_woken (f : WorkerPc → ℕ) (hf : ∀ p, f p.wake = f p) {pc : Fin n → WorkerPc}
    (hpc : pc w = .parked) : tally f (Function.update pc w .woken) = tally f pc := by
  have htally := tally_update f pc w .woken
  have hsame : f .woken = f .parked := hf .parked
  rw [hpc, hsame] at htally
  exact Nat.add_right_cancel htally

theorem PoolInv.step (h : PoolInv s) {a : PoolLabel n} (hs : s.step a = some s') :
    PoolInv s' := by
  have hstarted := h.threads.started
  cases SimpleThreadPool.step_cases hs with
  | threw =>
    exact ⟨⟨h.items.queue, h.items.executed, h.items.before⟩, h.threads.created, h.threads.quit,
      h.threads.joined, h.threads.stopped, h.threads.notifying⟩
  | started hidle hst =>
    have hnot : ¬ (s.quitRequest = true ∨ s.stopPc ≠ .idle) := by
      intro hq
      rcases h.threads.quit hq with hst' | hst'
      · rw [hst] at hst'
        cases hst'
      · rw [hst] at hst'
        cases hst'.1
    refine ⟨⟨h.items.queue, fun k => ?_, h.items.before⟩, nofun, fun hq => absurd hq hnot,
      fun i hi => ?_, nofun, h.threads.notifying⟩
    · have hex := h.items.executed k
      have hnone : tally (WorkerPc.runs k) (fun _ : Fin n => .notCreated) = 0 := tally_const rfl
      have hlock : tally (WorkerPc.runs k) (fun _ : Fin n => .lock) = 0 := tally_const rfl
      rw [h.threads.created hst, hnone] at hex
      simpa [hlock] using hex
    · exact absurd (.inr (by rw [hi]; nofun)) hnot
  | enqueued =>
    exact ⟨h.items.enqueueItem (fun _ => rfl) rfl rfl rfl rfl rfl, h.threads.created,
      h.threads.quit, h.threads.joined, h.threads.stopped, h.threads.notifying⟩
  | notifiedOne hpc =>
    exact ⟨h.items.enqueueItem (fun k => tally_woken _ (WorkerPc.runs_wake k) hpc) rfl rfl rfl
        rfl rfl,
      h.threads.goto (by rw [hpc]; nofun) (by rw [hpc]; nofun) rfl rfl rfl rfl⟩
  | stopCalled hidle hst =>
    refine ⟨⟨h.items.queue, h.items.executed, le_rfl⟩, h.threads.created,
      fun _ => .inr ⟨hst, nofun⟩, nofun, fun hst' => ?_, nofun⟩
    rw [hst] at hst'
    cases hst'
  | storeQuit hpc =>
    have hst := hstarted (by rw [hpc]; nofun)
    refine ⟨⟨h.items.queue, h.items.executed, h.items.before⟩, h.threads.created,
      fun _ => .inr ⟨hst, nofun⟩, nofun, fun hst' => ?_, fun _ => rfl⟩
    rw [hst] at hst'
    cases hst'
  | notifyAll hpc =>
    have hst := hstarted (by rw [hpc]; nofun)
    refine ⟨⟨h.items.queue, fun k => ?_, h.items.before⟩, fun hc => ?_,
      fun _ => .inr ⟨hst, nofun⟩, ?_, fun hst' => ?_, nofun⟩
    · exact (congrArg _ (tally_wake _ (WorkerPc.runs_wake k) _)).trans (h.items.executed k)
    · rw [hst] at hc
      cases hc
    · rintro _ ⟨⟩
      exact ⟨h.threads.notifying hpc, fun _ hlt => absurd hlt (Nat.not_lt_zero _)⟩
    · rw [hst] at hst'
      cases hst'
  | @joined i hpc hi hex =>
    have hst := hstarted (by rw [hpc]; nofun)
    obtain ⟨hq, hjoined⟩ := h.threads.joined i hpc
    refine ⟨⟨h.items.queue, h.items.executed, h.items.before⟩, h.threads.created,
      fun _ => .inr ⟨hst, nofun⟩, ?_, fun hst' => ?_, nofun⟩
    · rintro _ ⟨⟩
      refine ⟨hq, fun u hu => ?_⟩
      rcases Nat.lt_succ_iff_lt_or_eq.mp hu with hlt | heq
      · exact hjoined u hlt
      · rw [← hex]
        exact congrArg _ (Fin.ext heq)
    · rw [hst] at hst'
      cases hst'
  | @stopped i hpc hi =>
    obtain ⟨hq, hjoined⟩ := h.threads.joined i hpc
    exact ⟨⟨h.items.queue, h.items.executed, h.items.before⟩, nofun, fun _ => .inl rfl, nofun,
      fun _ => ⟨hq, rfl, fun u => hjoined u (u.isLt.trans_le hi)⟩, nofun⟩
  | work hs => exact h.work hs
  | spuriousWake hpc =>
    refine ⟨h.items.goto (l := s.lockRoot) fun k => ?_,
      h.threads.goto (by rw [hpc]; nofun) (by rw [hpc]; nofun) rfl rfl rfl rfl⟩
    rw [hpc]
    rfl

theorem reachable_poolInv (h : (poolMachine n).Reachable Machine.Any s) : PoolInv s := by
  refine h.invariant ⟨⟨rfl, fun k => ?_, le_rfl⟩, fun _ => rfl, ?_, nofun, nofun, nofun⟩
    fun _ _ _ hi _ hs => hi.step hs
  · have hnone : tally (WorkerPc.runs k) (fun _ : Fin n => .notCreated) = 0 := tally_const rfl
    exact (Nat.zero_add _).trans hnone
  · rintro (hq | hq)
    · cases hq
    · exact absurd rfl hq

end Invariant

/-! ## After `_quitRequest` is set -/

/-- The flag is set; `c` items and no more can be taken from the queue, and all of them are,
    unless the first `m` are taken before. -/
structure Draining {n : ℕ} (m c : ℕ) (s : SimpleThreadPool n) : Prop where
  quit : s.quitRequest = true
  before : s.beforeStop = m
  le : s.taken.length + s.ready ≤ c
  all : s.taken.length + s.ready = c ∨ m ≤ s.taken.length

namespace Draining

variable {n m c : ℕ} {s s' : SimpleThreadPool n} {w : Fin n}

/-- A step that takes nothing from the queue and leaves the number of ready workers as it
    was. -/
theorem congr (h : Draining m c s) (hq : s'.quitRequest = s.quitRequest)
    (hb : s'.beforeStop = s.beforeStop) (ht : s'.taken = s.taken) (hr : s'.ready = s.ready) :
    Draining m c s' := by
  refine ⟨hq.trans h.quit, hb.trans h.before, ?_, ?_⟩
  · rw [ht, hr]
    exact h.le
  · rw [ht, hr]
    exact h.all

theorem work (h : Draining m c s) (hi : PoolInv s) (hs : s.work w = some s') :
    Draining m c s' := by
  obtain ⟨l, p, rfl, -, -, -, hsame | ⟨h0, h1, -, hempty⟩ | ⟨-, -, hq⟩⟩ | ⟨k, q, hpc, hq, rfl⟩ |
      ⟨k, hpc, rfl⟩ := SimpleThreadPool.work_cases hs
  · refine h.congr rfl rfl rfl ?_
    have htally := tally_update WorkerPc.mayTake s.pc w p
    rw [hsame] at htally
    exact Nat.add_right_cancel htally
  · -- the worker leaves, and the queue is empty: everything enqueued has been taken
    have htally := tally_update WorkerPc.mayTake s.pc w p
    have hqueue := congrArg List.length hi.items.queue
    have hle := h.le
    have hbefore := hi.items.before
    rw [hempty, List.append_nil, List.length_range] at hqueue
    rw [h.before] at hbefore
    refine ⟨h.quit, h.before, ?_, .inr ?_⟩
    · simp only [SimpleThreadPool.ready, SimpleThreadPool.goto] at hle ⊢
      omega
    · simp only [SimpleThreadPool.goto]
      omega
  · rw [h.quit] at hq
    cases hq
  · have htally := tally_update WorkerPc.mayTake s.pc w (.running k)
    have hle := h.le
    have hall := h.all
    rw [hpc] at htally
    simp only [SimpleThreadPool.ready, WorkerPc.mayTake] at hle hall htally
    refine ⟨h.quit, h.before, ?_, ?_⟩ <;>
    · simp only [SimpleThreadPool.ready, SimpleThreadPool.goto, List.length_append,
        List.length_singleton]
      omega
  · refine h.congr rfl rfl rfl ?_
    have htally := tally_update WorkerPc.mayTake s.pc w .untilTest
    rw [hpc] at htally
    exact Nat.add_right_cancel htally

theorem step (h : Draining m c s) (hi : PoolInv s) {a : PoolLabel n} (hs : s.step a = some s') :
    Draining m c s' := by
  have hstate : s.threadPoolState = .stopped ∨ s.threadPoolState = .started ∧ s.stopPc ≠ .idle :=
    hi.threads.quit (.inl h.quit)
  cases SimpleThreadPool.step_cases hs with
  | threw | enqueued | joined | stopped => exact h.congr rfl rfl rfl rfl
  | started hidle hst =>
    rw [hst] at hstate
    rcases hstate with hst' | hst'
    · cases hst'
    · cases hst'.1
  | stopCalled hidle hst =>
    rcases hstate with hst' | hst'
    · rw [hst] at hst'
      cases hst'
    · exact absurd hidle hst'.2
  | storeQuit => exact h.congr h.quit.symm rfl rfl rfl
  | notifyAll => exact h.congr rfl rfl rfl (tally_wake _ WorkerPc.mayTake_wake _)
  | notifiedOne hpc | spuriousWake hpc =>
    exact h.congr rfl rfl rfl (tally_woken _ WorkerPc.mayTake_wake hpc)
  | work hs => exact h.work hi hs

end Draining

/-! ## `Stop` returns -/

section Drained

variable {n : ℕ} {s : SimpleThreadPool n}

theorem ItemsInv.taken_eq (h : ItemsInv s) : s.taken = List.range s.taken.length := by
  have htake := congrArg (List.take s.taken.length) h.queue
  have hlen := congrArg List.length h.queue
  rw [List.length_append, List.length_range] at hlen
  rwa [List.take_left, List.take_range, Nat.min_eq_left (by omega)] at htake

theorem ItemsInv.count_taken (h : ItemsInv s) (k : ℕ) :
    s.taken.count k = if k < s.taken.length then 1 else 0 := by
  rw [h.taken_eq, List.length_range]
  split
  · rename_i hlt
    exact List.count_eq_one_of_mem List.nodup_range (List.mem_range.mpr hlt)
  · rename_i hge
    exact List.count_eq_zero_of_not_mem fun hmem => hge (List.mem_range.mp hmem)

/-- When the workers have left their loops, everything that was taken has been executed. -/
theorem PoolInv.count_executed (h : PoolInv s) (hst : s.threadPoolState = .stopped) (k : ℕ) :
    s.executed.count k = if k < s.taken.length then 1 else 0 := by
  obtain ⟨-, -, hexited⟩ := h.threads.stopped hst
  have hruns : tally (WorkerPc.runs k) s.pc = 0 := tally_eq_zero fun u => by rw [hexited u]; rfl
  have hex := h.items.executed k
  rw [hruns, Nat.add_zero] at hex
  rw [hex, h.items.count_taken]

theorem length_filter_range (b k : ℕ) :
    ((List.range k).filter (· < b)).length = min k b := by
  induction k with
  | zero => rw [Nat.zero_min]; rfl
  | succ k ih =>
    rw [List.range_succ, List.filter_append, List.length_append, ih]
    by_cases hk : k < b
    · simp [hk]
      omega
    · simp [hk]
      omega

/-- The items enqueued before `Stop` was called are those taken and those still queued. -/
theorem ItemsInv.length_owed (h : ItemsInv s) :
    s.owed.length = s.beforeStop - s.taken.length := by
  have hall := length_filter_range s.beforeStop s.enqueued
  have htaken := length_filter_range s.beforeStop s.taken.length
  have hbefore := h.before
  rw [← h.queue, List.filter_append, List.length_append] at hall
  rw [← h.taken_eq] at htaken
  simp only [SimpleThreadPool.owed]
  omega

/-- No item is executed twice. -/
theorem PoolInv.count_executed_le (h : PoolInv s) (k : ℕ) : s.executed.count k ≤ 1 := by
  have hex := h.items.executed k
  rw [h.items.count_taken] at hex
  split at hex <;> omega

/-- When `Stop` returns, every item enqueued before it has been executed exactly once, if and
    only if, when it set `_quitRequest`, at most as many of these items were still queued as
    workers were ready to take one. No item is ever executed twice. -/
theorem stop_drains_iff {s₀ s₁ : SimpleThreadPool n}
    (h₀ : (poolMachine n).Reachable Machine.Any s₀) (hstop : s₀.stopPc = .storeQuit)
    (hstep : s₀.stopStep = some s₁) (hr : (poolMachine n).Reaches Machine.Any s₁ s)
    (hret : s.threadPoolState = .stopped) :
    ((∀ k < s₀.beforeStop, s.executed.count k = 1) ↔ s₀.owed.length ≤ s₀.ready) ∧
      ∀ k, s.executed.count k ≤ 1 := by
  have hi₀ := reachable_poolInv h₀
  have hi₁ : PoolInv s₁ := hi₀.step (a := .stopStep) hstep
  have hd₁ : Draining s₀.beforeStop (s₀.taken.length + s₀.ready) s₁ := by
    simp only [SimpleThreadPool.stopStep, hstop] at hstep
    cases hstep
    exact ⟨rfl, rfl, le_rfl, .inl rfl⟩
  obtain ⟨hi, hd⟩ : PoolInv s ∧ Draining s₀.beforeStop (s₀.taken.length + s₀.ready) s :=
    hr.preserves (I := fun u => PoolInv u ∧ Draining s₀.beforeStop (s₀.taken.length + s₀.ready) u)
      (fun _ _ _ hu _ hs => ⟨hu.1.step hs, hu.2.step hu.1 hs⟩) ⟨hi₁, hd₁⟩
  refine ⟨?_, hi.count_executed_le⟩
  have hready : s.ready = 0 := tally_eq_zero fun u => by
    rw [(hi.threads.stopped hret).2.2 u]
    rfl
  have hall := hd.all
  have hle := hd.le
  have howed := hi₀.items.length_owed
  rw [hready] at hall hle
  calc (∀ k < s₀.beforeStop, s.executed.count k = 1)
      ↔ ∀ k < s₀.beforeStop, k < s.taken.length := by
        refine forall₂_congr fun k _ => ?_
        rw [hi.count_executed hret]
        simp
    _ ↔ s₀.beforeStop ≤ s.taken.length := by
        refine ⟨fun h => ?_, fun h k hk => by omega⟩
        by_contra hlt
        exact absurd (h s.taken.length (by omega)) (lt_irrefl _)
    _ ↔ s₀.owed.length ≤ s₀.ready := by omega

/-- Two workers, two items. -/
theorem stop_drains_iff_two :
    ∃ s : SimpleThreadPool 2, (poolMachine 2).Reachable Machine.Any s ∧
      s.threadPoolState = .stopped ∧ ∀ k < 2, s.executed.count k = 1 := by
  obtain ⟨s₀, s₁, s, h₀, hstop, hstep, hr, hret, hbefore, hle⟩ : ∃ s₀ s₁ s : SimpleThreadPool 2,
      (poolMachine 2).run {} [.start, .enqueueItem none, .enqueueItem none, .work 0, .stop] =
        some s₀ ∧ s₀.stopPc = .storeQuit ∧ s₀.stopStep = some s₁ ∧
      (poolMachine 2).run s₁ [.stopStep, .work 0, .work 0, .work 0, .work 0, .work 0, .work 1,
        .work 1, .work 1, .work 1, .work 1, .work 1, .stopStep, .stopStep, .stopStep] = some s ∧
      s.threadPoolState = .stopped ∧ s₀.beforeStop = 2 ∧ s₀.owed.length ≤ s₀.ready :=
    ⟨_, _, _, rfl, rfl, rfl, rfl, rfl, rfl, by decide⟩
  have hs₁ : (poolMachine 2).Reaches Machine.Any s₀ s₁ :=
    .single (a := .stopStep) trivial hstep
  have hdrained := stop_drains_iff (.of_run h₀) hstop hstep (.of_run hr) hret
  rw [hbefore] at hdrained
  exact ⟨s, .trans (.trans (.of_run h₀) hs₁) (.of_run hr), hret, hdrained.1.mpr hle⟩

/-- One worker, which is before `_lockRoot` when `Stop` sets the flag: it takes the first
    item, and leaves its loop with the second still queued. -/
theorem not_stop_drains :
    ∃ s : SimpleThreadPool 1, (poolMachine 1).Reachable Machine.Any s ∧
      s.threadPoolState = .stopped ∧ s.beforeStop = 2 ∧ s.executed = [0] ∧ s.innerQueue = [1] := by
  have hr : (poolMachine 1).run {} [.start, .enqueueItem none, .enqueueItem none, .stop, .stopStep,
    .stopStep, .work 0, .work 0, .work 0, .work 0, .work 0, .work 0, .stopStep, .stopStep] =
    some _ := rfl
  exact ⟨_, .of_run hr, rfl, rfl, rfl, rfl⟩

end Drained

end AsyncCpp.Schedulers
