import AsyncCpp.Lib.Simulation
import AsyncCpp.Schedulers.StopNotify

/-!
# Every item of a pool is run

`EnqueueItem` pushes the item and calls `notify_one` while it holds `_lockRoot`
(SimpleThreadPool.cpp:116-121), and a worker that is about to park has held `_lockRoot` since it
found the queue empty. So no item is pushed between the two, and `notify_one` wakes a worker
where all are parked.

A call of `EnqueueItem` in its steps is a call that does everything at the `notify_one`: until
then nobody can see the item it has pushed.

Results:
* `notify_simulates`: the pool of Schedulers/SimpleThreadPool.lean, whose `EnqueueItem` is one
  step, is a model of the one whose `EnqueueItem` is cut into steps.
* `pool_runs_every_item`: while `Stop` is not called no worker sleeps through an item, and where
  the pool can only go on with a new call every item has been run once, taken in the order of
  the queue.
-/

namespace AsyncCpp.Schedulers

open Interleaving

/-! ## `EnqueueItem` in one step -/

namespace SimpleThreadPool

variable {n : ℕ} {s s' : SimpleThreadPool n}

/-- The pool with more items at the end of its queue, `m` more calls of `EnqueueItem`, and
    another number of calls before `Stop`. -/
def holding (s : SimpleThreadPool n) (items : List ℕ) (m b : ℕ) : SimpleThreadPool n :=
  { s with innerQueue := s.innerQueue ++ items, enqueued := s.enqueued + m, beforeStop := b }

@[simp] theorem holding_pc {items : List ℕ} {m b : ℕ} : (s.holding items m b).pc = s.pc := rfl

/-- Nobody but the owner of `_lockRoot` looks at the queue. -/
theorem work_holding {items : List ℕ} {m b : ℕ} {w : Fin n}
    (hq : items = [] ∨ (s.pc w).holdsLock = false) (hs : (s.holding items m b).work w = some s') :
    ∃ t, s.work w = some t ∧ s' = t.holding items m b := by
  unfold work at hs ⊢
  cases hpc : s.pc w <;> simp only [hpc, WorkerPc.holdsLock, Bool.true_eq_false, or_false] at hq
  all_goals simp only [holding_pc, hpc] at hs ⊢
  case notCreated | parked | exited => cases hs
  case lock | woken | untilTest =>
    split at hs <;> cases hs <;> rename_i h
    all_goals first | exact ⟨_, if_pos h, rfl⟩ | exact ⟨_, if_neg h, rfl⟩
  case wait | running =>
    cases hs
    exact ⟨_, rfl, rfl⟩
  case whileTest | ifTest =>
    subst hq
    simp only [holding, List.append_nil] at hs
    split at hs <;> cases hs <;> rename_i h
    · exact ⟨_, if_pos h, by simp [holding]⟩
    · exact ⟨_, if_neg h, by simp [holding]⟩
  case take =>
    subst hq
    simp only [holding, List.append_nil] at hs
    cases hk : s.innerQueue <;> simp only [hk] at hs ⊢ <;> cases hs
    exact ⟨_, rfl, by simp [holding]⟩

/-- The same for all steps but those of `EnqueueItem`. -/
theorem step_holding {items : List ℕ} {m b : ℕ} {a : PoolLabel n}
    (ha : ∀ w, a ≠ .enqueueItem w) (hq : items = [] ∨ ∀ w, (s.pc w).holdsLock = false)
    (hs : (s.holding items m b).step a = some s') :
    ∃ t b', s.step a = some t ∧ s' = t.holding items m b' := by
  cases a with
  | enqueueItem w => exact absurd rfl (ha w)
  | work w =>
    obtain ⟨t, ht, rfl⟩ := work_holding (hq.imp_right fun h => h w) hs
    exact ⟨t, b, ht, rfl⟩
  | start | stop =>
    simp only [step] at hs ⊢
    split at hs
    · cases hs
    rename_i hidle
    split at hs <;> cases hs <;> rename_i hst
    · exact ⟨_, b, (if_neg hidle).trans (if_pos hst), rfl⟩
    · exact ⟨_, _, (if_neg hidle).trans (if_neg hst), rfl⟩
  | stopStep =>
    simp only [step, stopStep] at hs ⊢
    split at hs <;> rename_i hpc
    case h_1 => cases hs
    all_goals rw [show s.stopPc = _ from hpc]
    case h_2 | h_3 =>
      cases hs
      exact ⟨_, b, rfl, rfl⟩
    case h_4 =>
      split at hs <;> rename_i hi
      · split at hs <;> cases hs
        rename_i hex
        exact ⟨_, b, (dif_pos hi).trans (if_pos hex), rfl⟩
      · cases hs
        exact ⟨_, b, dif_neg hi, rfl⟩
  | spuriousWake w =>
    simp only [step] at hs ⊢
    split at hs <;> cases hs
    rename_i hpc
    exact ⟨_, b, if_pos hpc, rfl⟩

end SimpleThreadPool

namespace SimpleThreadPool

/-- Only `EnqueueItem` counts its calls. -/
theorem enqueued_step {n : ℕ} {s s' : SimpleThreadPool n} {a : PoolLabel n}
    (hs : s.step a = some s') (ha : ∀ w, a ≠ .enqueueItem w) : s'.enqueued = s.enqueued := by
  cases a with
  | enqueueItem w => exact absurd rfl (ha w)
  | work w =>
    obtain ⟨l, p, rfl, -⟩ | ⟨k, q, -, -, rfl⟩ | ⟨k, -, rfl⟩ := work_cases hs <;> rfl
  | start | stop | spuriousWake =>
    simp only [step] at hs
    split_ifs at hs <;> cases hs <;> rfl
  | stopStep =>
    simp only [step, stopStep] at hs
    split at hs
    case h_1 => cases hs
    case h_2 | h_3 => cases hs; rfl
    case h_4 => split_ifs at hs <;> cases hs <;> rfl

end SimpleThreadPool

namespace NotifySystem

variable {n : ℕ} {s s' : NotifySystem n} {t : SimpleThreadPool n}

/-- The pool is `t`, to which a call before its `notify_one` has already added its item. -/
inductive Atomic (s : NotifySystem n) (t : SimpleThreadPool n) : Prop
  | pushed (he : s.enqueuing = some .notifyOne) (b : ℕ)
    (hp : s.pool = t.holding [t.enqueued] 1 b)
  | same (he : s.enqueuing ≠ some .notifyOne) (b : ℕ) (hp : s.pool = t.holding [] 0 b)

/-- A step of the pool itself. -/
theorem Atomic.pool_step (h : s.Atomic t) (hi : NotifyInv s) {a : PoolLabel n}
    (ha : ∀ w, a ≠ .enqueueItem w) {p : SimpleThreadPool n} (hs : s.pool.step a = some p) :
    ∃ t', t.step a = some t' ∧ { s with pool := p }.Atomic t' := by
  cases h with
  | pushed he b hp =>
    -- the call holds `_lockRoot`, so no worker looks at the queue
    have hfree : ∀ w, (t.pc w).holdsLock = false := by
      intro w
      have hlock := (hi.pool.lock w).mpr.mt
      rw [hi.excluded (by rw [he]; simp), hp] at hlock
      simpa using hlock (by simp)
    rw [hp] at hs
    obtain ⟨t', b', ht', rfl⟩ := SimpleThreadPool.step_holding ha (.inr hfree) hs
    exact ⟨t', ht', .pushed he b' (by rw [SimpleThreadPool.enqueued_step ht' ha])⟩
  | same he b hp =>
    rw [hp] at hs
    obtain ⟨t', b', ht', rfl⟩ := SimpleThreadPool.step_holding ha (.inl rfl) hs
    exact ⟨t', ht', .same he b' rfl⟩

/-- A step of a call of `EnqueueItem` does nothing to the pool, or everything. -/
theorem Atomic.enqueueStep (h : s.Atomic t) (hi : NotifyInv s) {w : Option (Fin n)}
    (hs : s.enqueueStep w = some s') :
    s'.Atomic t ∨ ∃ t', t.step (.enqueueItem w) = some t' ∧ s'.Atomic t' := by
  have hfree : s.enqueuing = some .notifyOne → s.pool.lockRoot.isNone := by
    intro he
    rw [hi.excluded (by rw [he]; simp)]
    rfl
  unfold NotifySystem.enqueueStep at hs
  cases h with
  | pushed he b hp =>
    have hlock := hfree he
    rw [hp] at hlock
    cases w with
    | none =>
      simp only [he] at hs
      split at hs <;> cases hs
      rename_i hnone
      rw [hp] at hnone
      refine .inr ⟨_, if_pos ⟨hlock, hnone⟩, .same (by simp) b ?_⟩
      rw [hp]
      simp [SimpleThreadPool.holding]
    | some w =>
      simp only [he] at hs
      split at hs <;> cases hs
      rename_i hparked
      rw [hp] at hparked
      refine .inr ⟨_, if_pos ⟨hlock, hparked⟩, .same (by simp) b ?_⟩
      rw [hp]
      simp [SimpleThreadPool.holding]
  | same he b hp =>
    split at hs
    case h_1 =>
      cases hs
      refine .inl (.pushed rfl b ?_)
      rw [hp]
      simp [SimpleThreadPool.holding]
    case h_2 he' => exact absurd he' he
    case h_3 he' => exact absurd he' he
    case h_4 =>
      cases hs
      exact .inl (.same (by simp) b hp)
    case h_5 => cases hs

end NotifySystem

/-- `EnqueueItem` in its steps is `EnqueueItem` in one step. -/
theorem notify_simulates (n : ℕ) :
    Machine.Simulates (notifyMachine n) (poolMachine n) Machine.Any Machine.Any
      NotifySystem.Atomic where
  init := .same (by simp [notifyMachine]) 0 rfl
  step := by
    intro s a s' t hs ht h _ hst
    have hi := reachable_notifyInv hs
    have hpool : ∀ (b : PoolLabel n) (p : SimpleThreadPool n), (∀ w, b ≠ .enqueueItem w) →
        s.pool.step b = some p → s' = { s with pool := p } →
        ∃ t', (poolMachine n).Reaches Machine.Any t t' ∧ s'.Atomic t' := by
      rintro b p hb hp rfl
      obtain ⟨t', ht', h'⟩ := h.pool_step hi hb hp
      exact ⟨t', .single (a := b) trivial ht', h'⟩
    cases a with
    | enqueueItem =>
      simp only [notifyMachine, NotifySystem.step] at hst
      split at hst <;> cases hst
      rename_i hfree
      cases h with
      | pushed he => simp [he] at hfree
      | same he b hp => exact ⟨t, .refl, .same (by simp) b hp⟩
    | enqueueStep w =>
      rcases h.enqueueStep hi hst with h' | ⟨t', ht', h'⟩
      · exact ⟨t, .refl, h'⟩
      · exact ⟨t', .single (a := .enqueueItem w) trivial ht', h'⟩
    | work w =>
      simp only [notifyMachine, NotifySystem.step] at hst
      split at hst
      · cases hst
      · obtain ⟨p, hp, rfl⟩ := Option.map_eq_some_iff.mp hst
        exact hpool (.work w) p (by simp) hp rfl
    | start =>
      obtain ⟨p, hp, rfl⟩ := Option.map_eq_some_iff.mp hst
      exact hpool .start p (by simp) hp rfl
    | stop =>
      obtain ⟨p, hp, rfl⟩ := Option.map_eq_some_iff.mp hst
      exact hpool .stop p (by simp) hp rfl
    | stopStep =>
      obtain ⟨p, hp, rfl⟩ := Option.map_eq_some_iff.mp hst
      exact hpool .stopStep p (by simp) hp rfl
    | spuriousWake w =>
      obtain ⟨p, hp, rfl⟩ := Option.map_eq_some_iff.mp hst
      exact hpool (.spuriousWake w) p (by simp) hp rfl

/-! ## The workers while `Stop` is not called -/

theorem reachable_lockInv {n : ℕ} {s : SimpleThreadPool n}
    (h : (poolMachine n).Reachable Machine.Any s) : LockInv s := by
  refine h.invariant ⟨fun w => ?_, by simp [poolMachine], by simp [poolMachine], ?_,
    fun _ => ⟨fun _ => rfl, rfl⟩, fun hne => absurd rfl hne⟩ fun _ _ _ hi _ hs => hi.step hs
  · simp [poolMachine, WorkerPc.holdsLock]
  · simp [poolMachine]

/-- A worker that is about to park has found the queue empty, not all workers are parked while
    there is an item, and without `Stop` nobody leaves. -/
structure WakeInv {n : ℕ} (s : SimpleThreadPool n) : Prop where
  empty : ∀ w, s.pc w = .wait → s.innerQueue = []
  awake : s.innerQueue ≠ [] → ∃ w, s.pc w ≠ .parked
  stays : s.quitRequest = false → ∀ w, s.pc w ≠ .exited

namespace WakeInv

variable {n : ℕ} {s s' : SimpleThreadPool n} {w : Fin n} {p : WorkerPc}

/-- A worker moves, and nothing is pushed. -/
theorem move (h : WakeInv s) (hpc : s'.pc = Function.update s.pc w p)
    (hwait : p = .wait → s'.innerQueue = []) (hparked : p = .parked → s'.innerQueue = [])
    (hexited : p = .exited → s'.quitRequest = true)
    (hqueue : s.innerQueue = [] → s'.innerQueue = [])
    (hquit : s'.quitRequest = s.quitRequest := by rfl) : WakeInv s' := by
  refine ⟨fun u hu => ?_, fun hne => ⟨w, ?_⟩, fun hq u => ?_⟩
  · rw [hpc] at hu
    by_cases huw : u = w
    · subst huw
      rw [Function.update_self] at hu
      exact hwait hu
    · rw [Function.update_of_ne huw] at hu
      exact hqueue (h.empty u hu)
  · rw [hpc, Function.update_self]
    exact fun hp => hne (hparked hp)
  · rw [hpc]
    by_cases huw : u = w
    · subst huw
      rw [Function.update_self]
      intro hp
      rw [hexited hp] at hq
      cases hq
    · rw [Function.update_of_ne huw]
      exact h.stays (hquit ▸ hq) u

theorem work (h : WakeInv s) (hs : s.work w = some s') : WakeInv s' := by
  unfold SimpleThreadPool.work at hs
  split at hs <;> rename_i hpc
  case h_1 | h_2 =>
    split at hs <;> cases hs
    exact h.move rfl (by simp) (by simp) (by simp) id
  case h_3 =>
    split at hs <;> rename_i htest <;> cases hs
    · rw [Bool.and_eq_true, List.isEmpty_iff] at htest
      exact h.move rfl (fun _ => htest.2) (by simp) (by simp) id
    · exact h.move rfl (by simp) (by simp) (by simp) id
  case h_4 =>
    cases hs
    exact h.move rfl (by simp) (fun _ => h.empty w hpc) (by simp) id
  case h_5 =>
    split at hs <;> rename_i htest <;> cases hs
    · rw [Bool.and_eq_true] at htest
      exact h.move rfl (by simp) (by simp) (fun _ => htest.1) id
    · exact h.move rfl (by simp) (by simp) (by simp) id
  case h_6 =>
    split at hs <;> rename_i hq <;> cases hs
    refine h.move rfl (by simp) (by simp) (by simp) fun hnil => ?_
    rw [hq] at hnil
    cases hnil
  case h_7 =>
    cases hs
    exact h.move rfl (by simp) (by simp) (by simp) id
  case h_8 =>
    split at hs <;> rename_i hquit <;> cases hs
    · exact h.move rfl (by simp) (by simp) (fun _ => hquit) id
    · exact h.move rfl (by simp) (by simp) (by simp) id
  case h_9 | h_10 | h_11 => cases hs

/-- An item is pushed: nobody is about to park, and if all are parked one is woken. -/
theorem enqueueItem (h : WakeInv s) (hl : LockInv s) {v : Option (Fin n)} (hn : 0 < n)
    (hs : s.step (.enqueueItem v) = some s') : WakeInv s' := by
  have hwait : s.lockRoot.isNone → ∀ u, s.pc u ≠ .wait := by
    intro hfree u hu
    have hlock := (hl.lock u).mpr (by rw [hu]; rfl)
    rw [hlock] at hfree
    cases hfree
  cases v with
  | none =>
    simp only [SimpleThreadPool.step] at hs
    split at hs <;> cases hs
    rename_i hfree
    exact ⟨fun u hu => absurd hu (hwait hfree.1 u), fun _ => ⟨⟨0, hn⟩, hfree.2 _⟩, h.stays⟩
  | some v =>
    simp only [SimpleThreadPool.step] at hs
    split at hs <;> cases hs
    rename_i hfree
    refine ⟨fun u hu => ?_, fun _ => ⟨v, ?_⟩, fun hq u => ?_⟩
    · have hu' : Function.update s.pc v .woken u = .wait := hu
      by_cases huv : u = v
      · subst huv
        rw [Function.update_self] at hu'
        cases hu'
      · rw [Function.update_of_ne huv] at hu'
        exact absurd hu' (hwait hfree.1 u)
    · show Function.update s.pc v .woken v ≠ .parked
      rw [Function.update_self]
      simp
    · show Function.update s.pc v .woken u ≠ .exited
      by_cases huv : u = v
      · subst huv
        rw [Function.update_self]
        simp
      · rw [Function.update_of_ne huv]
        exact h.stays hq u

theorem step (h : WakeInv s) (hl : LockInv s) (hn : 0 < n) {a : PoolLabel n}
    (hs : s.step a = some s') : WakeInv s' := by
  cases a with
  | enqueueItem v => exact h.enqueueItem hl hn hs
  | work w => exact h.work hs
  | start =>
    simp only [SimpleThreadPool.step] at hs
    split_ifs at hs <;> cases hs
    · exact ⟨h.empty, h.awake, h.stays⟩
    · exact ⟨by simp, fun _ => ⟨⟨0, hn⟩, by simp⟩, by simp⟩
  | stop =>
    simp only [SimpleThreadPool.step] at hs
    split_ifs at hs <;> cases hs <;> exact ⟨h.empty, h.awake, h.stays⟩
  | stopStep =>
    simp only [SimpleThreadPool.step, SimpleThreadPool.stopStep] at hs
    split at hs <;> rename_i hstop
    case h_1 => cases hs
    case h_2 =>
      cases hs
      exact ⟨h.empty, h.awake, fun hq => by cases hq⟩
    case h_3 =>
      cases hs
      have hquit : s.quitRequest = true := hl.quit (.inl hstop)
      have hwake : ∀ w, (s.pc w).wake ≠ .parked := by
        intro w
        cases hpc : s.pc w <;> simp [WorkerPc.wake]
      refine ⟨fun w hw => h.empty w ?_, fun _ => ⟨⟨0, hn⟩, hwake _⟩, fun hq => ?_⟩
      · show s.pc w = .wait
        cases hpc : s.pc w <;> simp [WorkerPc.wake, hpc] at hw ⊢
      · rw [show s.quitRequest = false from hq] at hquit
        cases hquit
    case h_4 =>
      split_ifs at hs <;> cases hs <;> exact ⟨h.empty, h.awake, h.stays⟩
  | spuriousWake w =>
    simp only [SimpleThreadPool.step] at hs
    split_ifs at hs
    cases hs
    exact h.move rfl (by simp) (by simp) (by simp) id

end WakeInv

theorem reachable_wakeInv {n : ℕ} {s : SimpleThreadPool n} (hn : 0 < n)
    (h : (poolMachine n).Reachable Machine.Any s) : WakeInv s := by
  refine h.invariant_with (fun _ => reachable_lockInv)
    ⟨by simp [poolMachine], by simp [poolMachine], by simp [poolMachine]⟩
    fun _ _ _ hl hi _ hs => hi.step hl hn hs

/-! ## How long a pool goes on -/

/-- The steps of a worker until it parks, if it takes no item. -/
def WorkerPc.todo : WorkerPc → ℕ
  | .lock | .woken => 5
  | .whileTest => 4
  | .wait => 1
  | .ifTest => 3
  | .take => 2
  | .running _ => 7
  | .untilTest => 6
  | .notCreated | .parked | .exited => 0

/-- The steps of a call of `EnqueueItem`, and of the worker and with the item it adds. -/
def EnqueuePc.todo : EnqueuePc → ℕ
  | .push => 14
  | .notifyOne => 7
  | .unlock => 1

/-- The workers' steps, where nothing is enqueued; an item is six steps of a worker. -/
def SimpleThreadPool.todo {n : ℕ} (s : SimpleThreadPool n) : ℕ :=
  6 * s.innerQueue.length + tally WorkerPc.todo s.pc

theorem SimpleThreadPool.todo_work {n : ℕ} {s s' : SimpleThreadPool n} {w : Fin n}
    (hs : s.work w = some s') : s'.todo < s.todo := by
  have hmove : ∀ p : WorkerPc, s'.pc = Function.update s.pc w p →
      6 * s'.innerQueue.length + p.todo < 6 * s.innerQueue.length + (s.pc w).todo →
      s'.todo < s.todo := by
    intro p hpc hlt
    have := tally_update WorkerPc.todo s.pc w p
    unfold todo
    rw [hpc]
    omega
  unfold work at hs
  split at hs <;> rename_i hpc <;> rw [hpc] at hmove
  case h_1 | h_2 | h_3 | h_5 | h_8 =>
    split at hs <;> cases hs <;>
      exact hmove _ rfl (Nat.add_lt_add_left (by simp [WorkerPc.todo]) _)
  case h_4 | h_7 =>
    cases hs
    exact hmove _ rfl (Nat.add_lt_add_left (by simp [WorkerPc.todo]) _)
  case h_6 =>
    split at hs <;> rename_i hq <;> cases hs
    refine hmove _ rfl ?_
    rw [hq, List.length_cons]
    simp only [WorkerPc.todo]
    omega
  case h_9 | h_10 | h_11 => cases hs

/-- The steps the pool takes without a new call of `EnqueueItem`, `Start` or `Stop` and without
    a spurious wakeup. -/
def NotifyLabel.own {n : ℕ} : NotifyLabel n → Prop
  | .work _ | .enqueueStep _ => True
  | _ => False

namespace NotifySystem

variable {n : ℕ} {s s' : NotifySystem n}

/-- The steps the pool can take without a new call. -/
def todo (s : NotifySystem n) : ℕ := s.pool.todo + (s.enqueuing.map EnqueuePc.todo).getD 0

theorem todo_step {a : NotifyLabel n} (ha : a.own) (hs : s.step a = some s') :
    s'.todo < s.todo := by
  cases a with
  | work w =>
    simp only [step] at hs
    split at hs
    · cases hs
    · obtain ⟨p, hp, rfl⟩ := Option.map_eq_some_iff.mp hs
      exact Nat.add_lt_add_right (SimpleThreadPool.todo_work hp) _
  | enqueueStep w =>
    simp only [step, enqueueStep] at hs
    split at hs
    case h_1 he =>
      cases hs
      simp only [todo, SimpleThreadPool.todo, he, Option.map_some, Option.getD_some,
        EnqueuePc.todo, List.length_append, List.length_singleton]
      omega
    case h_2 he =>
      split at hs <;> cases hs
      simp [todo, he, EnqueuePc.todo]
    case h_3 v he =>
      split at hs <;> cases hs
      rename_i hparked
      have := tally_update WorkerPc.todo s.pool.pc v .woken
      rw [hparked] at this
      simp only [todo, SimpleThreadPool.todo, SimpleThreadPool.goto, he, Option.map_some,
        Option.getD_some, EnqueuePc.todo, WorkerPc.todo] at this ⊢
      omega
    case h_4 he =>
      cases hs
      simp [todo, he, EnqueuePc.todo]
    case h_5 => cases hs
  | start | enqueueItem | stop | stopStep | spuriousWake => exact ha.elim

/-- The pool is started and `Stop` has not set `_quitRequest`. -/
def Serving (s : NotifySystem n) : Prop :=
  s.pool.threadPoolState = .started ∧ s.pool.quitRequest = false

theorem Serving.step {a : NotifyLabel n} (h : s.Serving) (ha : a.own)
    (hs : s.step a = some s') : s'.Serving := by
  cases a with
  | work w =>
    simp only [NotifySystem.step] at hs
    split at hs
    · cases hs
    · obtain ⟨p, hp, rfl⟩ := Option.map_eq_some_iff.mp hs
      cases SimpleThreadPool.work_moves hp <;> exact h
  | enqueueStep w =>
    obtain ⟨-, hp | hp | ⟨u, -, hp⟩⟩ := enqueueStep_cases hs <;>
      simpa [Serving, hp] using h
  | start | enqueueItem | stop | stopStep | spuriousWake => exact ha.elim

/-- At rest no call is inside `EnqueueItem` and all workers are parked. -/
theorem parked_of_atRest (hi : NotifyInv s) (hw : s.pool.quitRequest = false →
    ∀ w, s.pool.pc w ≠ .exited) (h : s.Serving) (hrest : (notifyMachine n).AtRest NotifyLabel.own s) :
    s.enqueuing = none ∧ ∀ w, s.pool.pc w = .parked := by
  have henq : s.enqueuing = none := by
    cases he : s.enqueuing with
    | none => rfl
    | some pc =>
      have hnone := hrest (.enqueueStep none) trivial
      cases pc with
      | push | unlock => simp [notifyMachine, step, enqueueStep, he] at hnone
      | notifyOne =>
        simp only [notifyMachine, step, enqueueStep, he, ite_eq_right_iff, reduceCtorEq,
          imp_false] at hnone
        push Not at hnone
        obtain ⟨w, hparked⟩ := hnone
        have hsome := hrest (.enqueueStep (some w)) trivial
        simp [notifyMachine, step, enqueueStep, he, hparked] at hsome
  have hwork : ∀ w, s.pool.work w = none := by
    intro w
    have := hrest (.work w) trivial
    simpa [notifyMachine, step, henq, SimpleThreadPool.step] using this
  have hcreated : s.pool.threadPoolState ≠ .created := by
    rw [h.1]
    simp
  have hlock : s.pool.lockRoot = none := by
    cases hl : s.pool.lockRoot with
    | none => rfl
    | some u =>
      have hholds := (hi.pool.lock u).mp hl
      obtain ⟨hlocks, hexited, hnc⟩ := WorkerPc.of_holdsLock hholds
      have hsome := hi.pool.work_isSome (w := u) (by simp [hlocks])
        (by intro hp; rw [hp] at hholds; cases hholds) hexited hnc
      rw [hwork u] at hsome
      cases hsome
  refine ⟨henq, fun w => ?_⟩
  by_contra hne
  have hsome := hi.pool.work_isSome (w := w) (fun _ => hlock) hne (hw h.2 w)
    (hi.pool.started hcreated w)
  rw [hwork w] at hsome
  cases hsome

end NotifySystem

/-- The worker is in its loop and not parked. -/
def WorkerPc.InLoop (p : WorkerPc) : Prop := p ≠ .notCreated ∧ p ≠ .parked ∧ p ≠ .exited

section Items

variable {n : ℕ} {s s' : NotifySystem n}

/-- Items are taken in the order of the queue, and a worker that has taken one runs it. -/
theorem reachable_items (h : (notifyMachine n).Reachable Machine.Any s) :
    s.pool.taken ++ s.pool.innerQueue = List.range s.pool.enqueued ∧
      ∀ k, s.pool.executed.count k + tally (WorkerPc.runs k) s.pool.pc = s.pool.taken.count k := by
  obtain ⟨t, ht, hat⟩ := (notify_simulates n).reachable h
  have hi := (reachable_poolInv ht).items
  cases hat with
  | pushed he b hp =>
    rw [hp]
    refine ⟨?_, hi.executed⟩
    show t.taken ++ (t.innerQueue ++ [t.enqueued]) = List.range (t.enqueued + 1)
    rw [List.range_succ, ← hi.queue, List.append_assoc]
  | same he b hp =>
    rw [hp]
    refine ⟨?_, hi.executed⟩
    show t.taken ++ (t.innerQueue ++ []) = List.range t.enqueued
    rw [List.append_nil, hi.queue]

theorem nodup_taken (h : (notifyMachine n).Reachable Machine.Any s) : s.pool.taken.Nodup := by
  have hnodup := List.nodup_range (n := s.pool.enqueued)
  rw [← (reachable_items h).1] at hnodup
  exact (List.nodup_append.mp hnodup).1

/-- Without `Stop` nobody leaves, and a worker is awake, or about to be woken, while an item is
    queued. -/
theorem reachable_wakes (hn : 0 < n) (h : (notifyMachine n).Reachable Machine.Any s) :
    (s.pool.quitRequest = false → ∀ w, s.pool.pc w ≠ .exited) ∧
      (s.pool.innerQueue ≠ [] → s.enqueuing = some .notifyOne ∨ ∃ w, s.pool.pc w ≠ .parked) := by
  obtain ⟨t, ht, hat⟩ := (notify_simulates n).reachable h
  have hw := reachable_wakeInv hn ht
  cases hat with
  | pushed he b hp =>
    rw [hp]
    exact ⟨hw.stays, fun _ => .inl he⟩
  | same he b hp =>
    rw [hp]
    refine ⟨hw.stays, fun hne => .inr (hw.awake fun hnil => hne ?_)⟩
    show t.innerQueue ++ [] = []
    rw [List.append_nil, hnil]

/-- At rest every item has been run. -/
theorem items_of_atRest (hn : 0 < n) (h : (notifyMachine n).Reachable Machine.Any s)
    (hs : s.Serving) (hrest : (notifyMachine n).AtRest NotifyLabel.own s) :
    s.enqueuing = none ∧ s.pool.taken = List.range s.pool.enqueued ∧
      s.pool.executed.Perm (List.range s.pool.enqueued) := by
  obtain ⟨hqueue, hexecuted⟩ := reachable_items h
  obtain ⟨hstays, hwakes⟩ := reachable_wakes hn h
  obtain ⟨henq, hparked⟩ := NotifySystem.parked_of_atRest (reachable_notifyInv h) hstays hs hrest
  have hempty : s.pool.innerQueue = [] := by
    by_contra hne
    rcases hwakes hne with he | ⟨w, hw⟩
    · rw [henq] at he
      cases he
    · exact hw (hparked w)
  rw [hempty, List.append_nil] at hqueue
  refine ⟨henq, hqueue, List.perm_iff_count.mpr fun k => ?_⟩
  have hidle : tally (WorkerPc.runs k) s.pool.pc = 0 := by
    refine tally_eq_zero fun w => ?_
    rw [hparked w]
    rfl
  rw [← hqueue, ← hexecuted k, hidle, Nat.add_zero]

/-- A pool, whatever its calls and however its threads interleave: items are taken in the order
    in which they were enqueued and none is run twice. While it is started and `Stop` has not
    set its flag, a worker is awake or about to be woken as long as an item is queued; and
    without new calls the pool goes on for a bounded number of steps, after which every item
    has been run. -/
theorem pool_runs_every_item (hn : 0 < n) (h : (notifyMachine n).Reachable Machine.Any s) :
    (s.pool.taken <+: List.range s.pool.enqueued ∧ s.pool.executed.Nodup ∧
      s.pool.executed ⊆ s.pool.taken) ∧
    (s.Serving → s.pool.innerQueue ≠ [] →
      s.enqueuing = some .notifyOne ∨ ∃ w, (s.pool.pc w).InLoop) ∧
    (s.Serving → ∀ as s', (∀ a ∈ as, a.own) → (notifyMachine n).run s as = some s' →
      as.length ≤ s.todo ∧
      ((notifyMachine n).AtRest NotifyLabel.own s' →
        s'.enqueuing = none ∧ s'.pool.taken = List.range s'.pool.enqueued ∧
        s'.pool.executed.Perm (List.range s'.pool.enqueued))) := by
  obtain ⟨hqueue, hexecuted⟩ := reachable_items h
  refine ⟨⟨?_, ?_, fun k hk => ?_⟩, fun hs hne => ?_,
    fun hs as s' hown hrun => ⟨?_, fun hrest => ?_⟩⟩
  · rw [← hqueue]
    exact List.prefix_append _ _
  · refine List.nodup_iff_count_le_one.mpr fun k => ?_
    have hone := List.nodup_iff_count_le_one.mp (nodup_taken h) k
    have := hexecuted k
    omega
  · have hpos := List.count_pos_iff.mpr hk
    have := hexecuted k
    exact List.count_pos_iff.mp (by omega)
  · obtain ⟨hstays, hwakes⟩ := reachable_wakes hn h
    refine (hwakes hne).imp_right fun ⟨w, hw⟩ => ⟨w, ?_, hw, hstays hs.2 w⟩
    exact (reachable_notifyInv h).pool.started (by rw [hs.1]; simp) w
  · have := Machine.length_add_le (M := notifyMachine n) (I := fun _ => True)
      (μ := NotifySystem.todo) (fun _ _ _ _ _ _ => trivial)
      (fun _ _ _ _ ha hst => NotifySystem.todo_step ha hst) trivial hown hrun
    omega
  · have hserving := (Machine.Reaches.of_run_of hown hrun).preserves (I := NotifySystem.Serving)
      (fun _ _ _ hi ha hst => hi.step ha hst) hs
    exact items_of_atRest hn (h.trans (.of_run hrun)) hserving hrest

/-- One worker, two items: the second is enqueued while the worker runs the first. -/
theorem pool_runs_every_item_two :
    ∃ s : NotifySystem 1, (notifyMachine 1).Reachable Machine.Any s ∧ s.Serving ∧
      s.pool.executed = [0, 1] ∧ s.pool.executed.Nodup := by
  have hr : (notifyMachine 1).run {} [.start, .enqueueItem, .enqueueStep none, .enqueueStep none,
    .enqueueStep none, .work 0, .work 0, .work 0, .work 0, .enqueueItem, .enqueueStep none,
    .enqueueStep none, .enqueueStep none, .work 0, .work 0, .work 0, .work 0, .work 0, .work 0,
    .work 0] = some _ := rfl
  exact ⟨_, .of_run hr, ⟨rfl, rfl⟩, rfl, (pool_runs_every_item (by simp) (.of_run hr)).1.2.1⟩

end Items

end AsyncCpp.Schedulers
